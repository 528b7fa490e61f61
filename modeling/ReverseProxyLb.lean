import ReverseProxyLb.Circuit.Probes
import ReverseProxyLb.Circuit.RollingWindow
import ReverseProxyLb.Balancer.Smooth
import ReverseProxyLb.Balancer.BoundedLoad
import ReverseProxyLb.Balancer.RandomPick
import ReverseProxyLb.Balancer.Latency
import ReverseProxyLb.Balancer.Transparency
import ReverseProxyLb.Balancer.EjectionHistory
import ReverseProxyLb.Health.Hysteresis
import ReverseProxyLb.Proxy.Admissions
import ReverseProxyLb.Proxy.Failover
import ReverseProxyLb.Proxy.MaxAttempts
import ReverseProxyLb.Proxy.Blame
import ReverseProxyLb.Proxy.Affinity
import ReverseProxyLb.Server.Availability
import ReverseProxyLb.Server.CircuitReset
import ReverseProxyLb.Discovery.Ownership
import ReverseProxyLb.Discovery.Kubernetes
import ReverseProxyLb.Server.RouteReload
import ReverseProxyLb.Canary.AutoPromote
import ReverseProxyLb.Limiter.Starvation
import ReverseProxyLb.Middleware.AdmissionQueue
import ReverseProxyLb.Middleware.JwksThrottle
import ReverseProxyLb.Cache.VaryIsolation
import ReverseProxyLb.Cache.Sharing
import ReverseProxyLb.Cache.Hints
import ReverseProxyLb.Cache.Refresh
import ReverseProxyLb.Proxy.Upload
import ReverseProxyLb.Proxy.WebSocket
import ReverseProxyLb.Server.Weights
import ReverseProxyLb.Server.BlueGreen
import ReverseProxyLb.Metrics.Histogram
import ReverseProxyLb.Metrics.Shards
import ReverseProxyLb.Tlsutil.Reload
import ReverseProxyLb.Writers.Capture
import ReverseProxyLb.Middleware.Lru
import ReverseProxyLb.Circuit.Merge
import ReverseProxyLb.Proxy.Backoff
import ReverseProxyLb.Metrics.Labels
import ReverseProxyLb.Server.ConfigWatch
import ReverseProxyLb.Server.Chain

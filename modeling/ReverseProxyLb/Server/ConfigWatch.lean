import ReverseProxyLb.Lib.Run

/-! The process loads the file, stats it for a baseline, and at every tick stats it again
and reloads it if the stamp has changed. The file may be replaced between any two of these
steps. -/
namespace ReverseProxyLb.Server.ConfigWatch
open Lib

variable {V : Type*}

inductive Phase where
  | started
  /-- The configuration is loaded and the server is being set up. -/
  | loaded
  | idle
  /-- A tick has found a new stamp. -/
  | reloading
  deriving DecidableEq

/-- `V` are the versions of the file; stamps are modification times, zero for a stat that failed,
and sizes. -/
structure Watch (V : Type*) where
  file : V
  /-- The stamps of all versions so far. -/
  stamps : List (ℤ × ℤ)
  config : Option V := none
  last : ℤ × ℤ := (0, 0)
  phase : Phase := .started

inductive Label (V : Type*) where
  | replace (v : V)
  | load
  | baseline (found : Bool)
  | tick (found : Bool)
  | read

def Label.isReplace : Label V → Bool
  | .replace _ => true
  | _ => false

def configFileStamp (stamp : V → ℤ × ℤ) (found : Bool) (file : V) : ℤ × ℤ :=
  if found then stamp file else (0, 0)

namespace Watch

def start (stamp : V → ℤ × ℤ) (file : V) : Watch V := { file := file, stamps := [stamp file] }

def tick (s : Watch V) (mod size : ℤ) : Watch V :=
  if mod = 0 then s
  else if (mod, size) = s.last then s
  else { s with last := (mod, size), phase := .reloading }

def step (stamp : V → ℤ × ℤ) (s : Watch V) : Label V → Option (Watch V)
  | .replace v =>
    if stamp v ∈ s.stamps then none else some { s with file := v, stamps := stamp v :: s.stamps }
  | .load =>
    if s.phase = .started then some { s with config := some s.file, phase := .loaded } else none
  | .baseline found =>
    if s.phase = .loaded then
      some { s with last := configFileStamp stamp found s.file, phase := .idle } else none
  | .tick found =>
    if s.phase = .idle then
      some (s.tick (configFileStamp stamp found s.file).1 (configFileStamp stamp found s.file).2)
    else none
  | .read =>
    if s.phase = .reloading then some { s with config := some s.file, phase := .idle } else none

/-- A version whose stamp is the last one seen is loaded or about to be. -/
structure Seen (stamp : V → ℤ × ℤ) (s : Watch V) : Prop where
  file : stamp s.file ∈ s.stamps
  last : s.last = (0, 0) ∨ s.last ∈ s.stamps
  watching : s.phase = .idle ∨ s.phase = .reloading
  config : s.last = stamp s.file → s.phase = .reloading ∨ s.config = some s.file

variable {stamp : V → ℤ × ℤ} {s s' : Watch V} {l : Label V}

theorem step_cases (hmod : ∀ v, (stamp v).1 ≠ 0) (hw : s.phase = .idle ∨ s.phase = .reloading)
    (hs : s.step stamp l = some s') :
    (∃ v, l = .replace v ∧ stamp v ∉ s.stamps ∧
      s' = { s with file := v, stamps := stamp v :: s.stamps }) ∨
      (l.isReplace = false ∧ l ≠ .tick true ∧ s' = s) ∨
      (l = .tick true ∧ stamp s.file = s.last ∧ s' = s) ∨
      (l = .tick true ∧ s' = { s with last := stamp s.file, phase := .reloading }) ∨
      l = .read ∧ s' = { s with config := some s.file, phase := .idle } := by
  have hidle : s.phase ≠ .started ∧ s.phase ≠ .loaded := by
    rcases hw with hw | hw <;> rw [hw] <;> decide
  cases l with
  | replace v =>
    simp only [step, Option.ite_none_left_eq_some, Option.some.injEq] at hs
    exact .inl ⟨v, rfl, hs.1, hs.2.symm⟩
  | load => simp [step, hidle.1] at hs
  | baseline found => simp [step, hidle.2] at hs
  | tick found =>
    simp only [step, Option.ite_none_right_eq_some, Option.some.injEq] at hs
    obtain ⟨-, rfl⟩ := hs
    cases found with
    | false => exact .inr (.inl ⟨rfl, by simp, by simp [configFileStamp, tick]⟩)
    | true =>
      have htick : s.tick (configFileStamp stamp true s.file).1 (configFileStamp stamp true s.file).2 =
          if stamp s.file = s.last then s
            else { s with last := stamp s.file, phase := .reloading } := by
        simp [configFileStamp, tick, hmod]
      rw [htick]
      split_ifs with hsame
      · exact .inr (.inr (.inl ⟨rfl, hsame, rfl⟩))
      · exact .inr (.inr (.inr (.inl ⟨rfl, rfl⟩)))
  | read =>
    simp only [step, Option.ite_none_right_eq_some, Option.some.injEq] at hs
    exact .inr (.inr (.inr (.inr ⟨rfl, hs.2.symm⟩)))

theorem Seen.step (hmod : ∀ v, (stamp v).1 ≠ 0) (h : Seen stamp s) (hs : s.step stamp l = some s') :
    Seen stamp s' := by
  obtain ⟨v, -, hnew, rfl⟩ | ⟨-, -, rfl⟩ | ⟨-, -, rfl⟩ | ⟨-, rfl⟩ | ⟨-, rfl⟩ :=
    step_cases hmod h.watching hs
  · refine ⟨List.mem_cons_self .., h.last.imp_right (List.mem_cons_of_mem _), h.watching, fun heq =>
      ?_⟩
    -- The stamp of the new version has not been seen.
    change s.last = stamp v at heq
    rcases h.last with hzero | hmem
    · exact absurd (congrArg Prod.fst (heq.symm.trans hzero)) (hmod v)
    · exact absurd (heq ▸ hmem) hnew
  · exact h
  · exact h
  · exact ⟨h.file, .inr h.file, .inr rfl, fun _ => .inl rfl⟩
  · exact ⟨h.file, h.last, .inl rfl, fun _ => .inr rfl⟩

theorem Seen.settled (hmod : ∀ v, (stamp v).1 ≠ 0) {ls : List (Label V)} (h : Seen stamp s)
    (hr : exec (Watch.step stamp) s ls = some s') (hstill : ∀ l ∈ ls, l.isReplace = false)
    (htick : Label.tick true ∈ ls ∨ s.last = stamp s.file) :
    Seen stamp s' ∧ s'.last = stamp s'.file := by
  induction ls generalizing s with
  | nil =>
    obtain rfl : s = s' := Option.some.inj hr
    exact ⟨h, htick.resolve_left List.not_mem_nil⟩
  | cons l ls ih =>
    obtain ⟨t, ht, hr⟩ := exec_cons_eq_some hr
    refine ih (h.step hmod ht) hr (fun l hl => hstill l (List.mem_cons_of_mem _ hl)) ?_
    obtain ⟨v, rfl, -, -⟩ | ⟨-, hl, rfl⟩ | ⟨-, hsame, rfl⟩ | ⟨-, rfl⟩ | ⟨rfl, rfl⟩ :=
      step_cases hmod h.watching ht
    · cases hstill _ (List.mem_cons_self ..)
    · exact htick.imp_left fun hmem => (List.mem_cons.mp hmem).resolve_left hl.symm
    · exact .inr hsame.symm
    · exact .inr rfl
    · exact htick.imp_left fun hmem => (List.mem_cons.mp hmem).resolve_left (by simp)

/-- Once the file stays as it is and a tick has found it, the present version is in force. -/
def Converges (stamp : V → ℤ × ℤ) (s : Watch V) : Prop :=
  ∀ ls s₁, exec (step stamp) s ls = some s₁ → ∀ ls' s₂, exec (step stamp) s₁ ls' = some s₂ →
    (∀ l ∈ ls', l.isReplace = false) → Label.tick true ∈ ls' → s₂.phase = .idle →
      s₂.config = some s₂.file

theorem Seen.converges (hmod : ∀ v, (stamp v).1 ≠ 0) (h : Seen stamp s) : Converges stamp s := by
  intro ls s₁ hr ls' s₂ hr' hstill htick hidle
  have hseen : Seen stamp s₁ := exec_keeps (fun _ _ _ h hs => h.step hmod hs) hr h
  obtain ⟨hend, hlast⟩ := hseen.settled hmod hr' hstill (.inl htick)
  refine (hend.config hlast).resolve_left ?_
  rw [hidle]
  decide

theorem mem_stamps {ls : List (Label V)} (hr : exec (step stamp) s ls = some s')
    (h : stamp s.file ∈ s.stamps) :
    stamp s'.file ∈ s'.stamps := by
  have hstep : ∀ (s : Watch V) l s', stamp s.file ∈ s.stamps → s.step stamp l = some s' →
      stamp s'.file ∈ s'.stamps := by
    intro s l s' h hs
    cases l <;>
      simp only [step, Option.ite_none_left_eq_some, Option.ite_none_right_eq_some,
        Option.some.injEq] at hs <;>
      obtain ⟨-, rfl⟩ := hs
    · exact List.mem_cons_self ..
    · exact h
    · exact h
    · unfold tick
      split_ifs <;> exact h
    · exact h
  exact exec_keeps hstep hr h

/-- The watch that begins with a baseline stat converges exactly if the stat fails, or finds the
version that was loaded. -/
theorem watch_converges_iff (hmod : ∀ v, (stamp v).1 ≠ 0) (file : V) (ls : List (Label V))
    (s : Watch V) (hr : exec (step stamp) (start stamp file) ls = some s) (hphase : s.phase = .loaded)
    (found : Bool) :
    (∃ s', s.step stamp (.baseline found) = some s' ∧ Converges stamp s') ↔
      found = false ∨ s.config = some s.file := by
  have hfile : stamp s.file ∈ s.stamps := mem_stamps hr (List.mem_cons_self ..)
  have hbase : s.step stamp (.baseline found) =
      some { s with last := configFileStamp stamp found s.file, phase := .idle } := by
        simp [step, hphase]
  constructor
  · rintro ⟨s', hs', hconverges⟩
    obtain rfl := Option.some.inj (hbase.symm.trans hs')
    by_contra hnot
    obtain ⟨hfound, hconfig⟩ := not_or.mp hnot
    obtain rfl : found = true := by simpa using hfound
    -- The next tick finds the stamp of the baseline.
    have htick : exec
        (step stamp) { s with last := configFileStamp stamp true s.file, phase := .idle }
        [.tick true] =
        some { s with last := configFileStamp stamp true s.file, phase := .idle } := by
      simp [exec_cons, step, configFileStamp, tick]
    have hkept := hconverges [] _ rfl [.tick true] _ htick (by simp [Label.isReplace]) (by simp) rfl
    exact hconfig hkept
  · intro hok
    refine ⟨_, hbase, Seen.converges hmod ⟨hfile, ?_, .inl rfl, fun heq => .inr ?_⟩⟩
    · cases found with
      | false => exact .inl rfl
      | true => exact .inr hfile
    · refine hok.resolve_left ?_
      rintro rfl
      exact hmod s.file (congrArg Prod.fst heq).symm

/-- The versions are numbers, each written a second after the one before. -/
def second (v : ℕ) : ℤ × ℤ := (v + 1, 0)

/-- The file is replaced while the server is being set up, and never again; no tick finds it. -/
theorem replaced_during_setup :
    ∃ s ∈ exec (step second) (start second 0) [.load, .replace 1, .baseline true, .tick true,
      .tick true],
      s.phase = .idle ∧ s.file = 1 ∧ s.config = some 0 := by
  decide

theorem watch_converges_iff_undisturbed :
    ∃ s ∈ exec (step second) (start second 0) [.load],
      ∃ s', s.step second (.baseline true) = some s' ∧ Converges second s' := by
  have hmod : ∀ v, (second v).1 ≠ 0 := by
    intro v
    simp only [second]
    omega
  exact ⟨_, rfl, (watch_converges_iff hmod 0 [.load] _ rfl rfl true).mpr (.inr rfl)⟩

end Watch
end ReverseProxyLb.Server.ConfigWatch

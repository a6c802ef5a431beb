import Mathlib.Data.List.Basic

/-!
# Calls that change a value and then save it

A value is kept in memory and, for the next start, in a file. Any number of
calls are under way. Each enters a locked section, where it is refused or changes
the value, leaves it, enters a second one, where the value as it then is goes
into the file, and returns. Between the two sections anyone else may take any
number of turns.

A schedule is the order in which the sections are entered, one call number for
each. `apply` is what the first section does and `save` what the second writes.

Two facts hold of every schedule. The value is what the calls that succeeded
make of it one after the other, in the order of their first sections
(`run_serial`): the saves are not visible in it. And the file is behind the value
only while someone who changed it has still to save (`run_current`), so that when
all have returned it is not behind at all.
-/

namespace WriteBehind

variable {ρ σ φ : Type*}

/-- Where a call stands. -/
inductive Phase
  | entered
  | saving
  | returned (ok : Bool)
  deriving DecidableEq, Repr

structure Call (ρ : Type*) where
  request : ρ
  phase : Phase
  deriving DecidableEq, Repr

/-- The value, the file, and the calls under way. -/
structure Shared (ρ σ φ : Type*) where
  value : σ
  file : φ
  calls : List (Call ρ)

def Call.start (r : ρ) : Call ρ := ⟨r, .entered⟩

/-- Has changed the value. -/
def Phase.committed : Phase → Bool
  | .entered => false
  | .saving => true
  | .returned ok => ok

def start (value : σ) (file : φ) (requests : List ρ) : Shared ρ σ φ :=
  ⟨value, file, requests.map Call.start⟩

variable (apply : ρ → σ → Option σ) (save : σ → φ)

/-- Call `i` goes through the section it is waiting for. -/
def turn (s : Shared ρ σ φ) (i : Nat) : Shared ρ σ φ :=
  match s.calls[i]? with
  | none => s
  | some c =>
      match c.phase with
      | .entered =>
          match apply c.request s.value with
          | none => { s with calls := s.calls.set i ⟨c.request, .returned false⟩ }
          | some v =>
              { s with value := v, calls := s.calls.set i ⟨c.request, .saving⟩ }
      | .saving =>
          { s with file := save s.value
                   calls := s.calls.set i ⟨c.request, .returned true⟩ }
      | .returned _ => s

def run (s : Shared ρ σ φ) (schedule : List Nat) : Shared ρ σ φ :=
  schedule.foldl (turn apply save) s

/-- The call that changes the value in this turn, if one does. -/
def commit (s : Shared ρ σ φ) (i : Nat) : Option (Nat × ρ) :=
  match s.calls[i]? with
  | some ⟨r, .entered⟩ => (apply r s.value).map fun _ => (i, r)
  | _ => none

/-- The calls that changed the value, in the order they did. -/
def commits (s : Shared ρ σ φ) : List Nat → List (Nat × ρ)
  | [] => []
  | i :: is => (commit apply s i).toList ++ commits (turn apply save s i) is

variable {apply} {save} {s s' : Shared ρ σ φ} {i : Nat}

/-! ## One turn -/

variable (apply save) in
/-- All a turn can do. -/
theorem turn_cases (s : Shared ρ σ φ) (i : Nat) :
    (turn apply save s i = s ∧ commit apply s i = none) ∨
    (∃ r, s.calls[i]? = some ⟨r, .entered⟩ ∧ commit apply s i = none ∧
      turn apply save s i =
        { s with calls := s.calls.set i ⟨r, .returned false⟩ }) ∨
    (∃ r v, s.calls[i]? = some ⟨r, .entered⟩ ∧ apply r s.value = some v ∧
      commit apply s i = some (i, r) ∧
      turn apply save s i =
        { s with value := v, calls := s.calls.set i ⟨r, .saving⟩ }) ∨
    ∃ r, s.calls[i]? = some ⟨r, .saving⟩ ∧ commit apply s i = none ∧
      turn apply save s i =
        { s with file := save s.value
                 calls := s.calls.set i ⟨r, .returned true⟩ } := by
  unfold turn commit
  cases hc : s.calls[i]? with
  | none => exact .inl ⟨rfl, rfl⟩
  | some c =>
      obtain ⟨r, phase⟩ := c
      cases phase with
      | entered =>
          cases ha : apply r s.value with
          | none => exact .inr (.inl ⟨r, rfl, by simp [ha], by simp [ha]⟩)
          | some v =>
              exact .inr (.inr (.inl ⟨r, v, rfl, ha, by simp [ha], by simp [ha]⟩))
      | saving => exact .inr (.inr (.inr ⟨r, rfl, rfl, rfl⟩))
      | returned ok => exact .inl ⟨rfl, rfl⟩

theorem run_cons (s : Shared ρ σ φ) (i : Nat) (is : List Nat) :
    run apply save s (i :: is) = run apply save (turn apply save s i) is := rfl

theorem turn_requests (s : Shared ρ σ φ) (i : Nat) :
    (turn apply save s i).calls.map Call.request = s.calls.map Call.request := by
  have hset {r : ρ} {p p' : Phase} (hi : s.calls[i]? = some ⟨r, p⟩) :
      (s.calls.set i ⟨r, p'⟩).map Call.request = s.calls.map Call.request := by
    obtain ⟨hlt, hget⟩ := List.getElem?_eq_some_iff.mp hi
    have hlt' : i < (s.calls.map Call.request).length := by simpa using hlt
    have hr : (s.calls.map Call.request)[i] = r := by rw [List.getElem_map, hget]
    rw [List.map_set]
    show (s.calls.map Call.request).set i r = s.calls.map Call.request
    rw [← hr, List.set_getElem_self]
  rcases turn_cases apply save s i with
    ⟨heq, -⟩ | ⟨r, hi, -, heq⟩ | ⟨r, v, hi, -, -, heq⟩ | ⟨r, hi, -, heq⟩ <;> rw [heq]
  · exact hset hi
  · exact hset hi
  · exact hset hi

theorem run_requests (s : Shared ρ σ φ) (is : List Nat) :
    (run apply save s is).calls.map Call.request = s.calls.map Call.request := by
  induction is generalizing s with
  | nil => rfl
  | cons i is ih => exact (ih _).trans (turn_requests s i)

/-! ## The order of the changes -/

/-- The changes made one after the other, if none is refused. -/
def serial (apply : ρ → σ → Option σ) (v : σ) (rs : List ρ) : Option σ :=
  rs.foldlM (fun v r => apply r v) v

theorem serial_inv {I : σ → Prop} {rs : List ρ} {v v' : σ}
    (hkeep : ∀ r ∈ rs, ∀ v v', I v → apply r v = some v' → I v') (h : I v)
    (hrun : serial apply v rs = some v') : I v' := by
  induction rs generalizing v with
  | nil =>
      obtain rfl : v = v' := Option.some.inj hrun
      exact h
  | cons r rs ih =>
      rw [serial, List.foldlM_cons] at hrun
      obtain ⟨w, hw, hrest⟩ := Option.bind_eq_some_iff.mp hrun
      refine ih (fun q hq => hkeep q (List.mem_cons_of_mem _ hq)) ?_ hrest
      exact hkeep r List.mem_cons_self v w h hw

theorem serial_split {before after : List ρ} {r : ρ} {v v' : σ}
    (hrun : serial apply v (before ++ r :: after) = some v') :
    ∃ w w', serial apply v before = some w ∧ apply r w = some w' ∧
      serial apply w' after = some v' := by
  rw [serial, List.foldlM_append] at hrun
  obtain ⟨w, hbefore, hrest⟩ := Option.bind_eq_some_iff.mp hrun
  rw [List.foldlM_cons] at hrest
  obtain ⟨w', hw', hafter⟩ := Option.bind_eq_some_iff.mp hrest
  exact ⟨w, w', hbefore, hw', hafter⟩

/-- The value is what the calls that succeeded make of it one after the other. -/
theorem run_serial (s : Shared ρ σ φ) (is : List Nat) :
    serial apply s.value ((commits apply save s is).map Prod.snd) =
      some (run apply save s is).value := by
  induction is generalizing s with
  | nil => rfl
  | cons i is ih =>
      rw [run_cons, commits]
      rcases turn_cases apply save s i with
        ⟨heq, hc⟩ | ⟨r, -, hc, heq⟩ | ⟨r, v, -, ha, hc, heq⟩ | ⟨r, -, hc, heq⟩
      · rw [hc, heq]
        exact ih s
      · have ih' := ih (turn apply save s i)
        rw [hc]
        rw [heq] at ih' ⊢
        exact ih'
      · have ih' := ih (turn apply save s i)
        rw [hc]
        rw [heq] at ih' ⊢
        rw [Option.toList_some, List.singleton_append, List.map_cons, serial,
          List.foldlM_cons, ha]
        exact ih'
      · have ih' := ih (turn apply save s i)
        rw [hc]
        rw [heq] at ih' ⊢
        exact ih'

/-- Call `j`, which asks for `r`, has changed the value. -/
def Committed (cs : List (Call ρ)) (j : Nat) (r : ρ) : Prop :=
  ∃ c, cs[j]? = some c ∧ c.request = r ∧ c.phase.committed = true

theorem committed_of_getElem? {cs : List (Call ρ)} {j : Nat} {c : Call ρ} {r : ρ}
    (h : cs[j]? = some c) :
    Committed cs j r ↔ c.request = r ∧ c.phase.committed = true := by
  constructor
  · rintro ⟨d, hd, hdr⟩
    obtain rfl : c = d := Option.some.inj (h.symm.trans hd)
    exact hdr
  · exact fun hc => ⟨c, h, hc⟩

theorem committed_set_of_ne {cs : List (Call ρ)} {i j : Nat} (h : i ≠ j)
    (c : Call ρ) (r : ρ) : Committed (cs.set i c) j r ↔ Committed cs j r := by
  unfold Committed
  rw [List.getElem?_set_ne h]

theorem committed_run (s : Shared ρ σ φ) (is : List Nat) (j : Nat) (r : ρ) :
    Committed (run apply save s is).calls j r ↔
      Committed s.calls j r ∨ (j, r) ∈ commits apply save s is := by
  induction is generalizing s with
  | nil => simp [run, commits]
  | cons i is ih =>
      rw [run_cons, ih, commits, List.mem_append, ← or_assoc]
      refine or_congr_left ?_
      have hset {q : ρ} {p p' : Phase} (hi : s.calls[i]? = some ⟨q, p⟩) (hj : i = j) :
          Committed (s.calls.set i ⟨q, p'⟩) j r ↔ q = r ∧ p'.committed = true := by
        subst hj
        have hlt := (List.getElem?_eq_some_iff.mp hi).1
        exact committed_of_getElem? (List.getElem?_set_self hlt)
      rcases turn_cases apply save s i with
        ⟨heq, hc⟩ | ⟨q, hi, hc, heq⟩ | ⟨q, v, hi, -, hc, heq⟩ | ⟨q, hi, hc, heq⟩ <;>
        rw [heq, hc]
      · simp
      all_goals by_cases hj : i = j
      · rw [hset hi hj, ← hj, committed_of_getElem? hi]
        simp [Phase.committed]
      · rw [committed_set_of_ne hj]
        simp
      · rw [hset hi hj, ← hj, committed_of_getElem? hi]
        simp [Phase.committed, eq_comm]
      · rw [committed_set_of_ne hj]
        simp [Ne.symm hj]
      · rw [hset hi hj, ← hj, committed_of_getElem? hi]
        simp [Phase.committed]
      · rw [committed_set_of_ne hj]
        simp

/-- Of calls that all start together, those that are through with their change
are the ones in the list. -/
theorem committed_iff (v : σ) (f : φ) (requests : List ρ) (is : List Nat) (j : Nat)
    (r : ρ) :
    Committed (run apply save (start v f requests) is).calls j r ↔
      (j, r) ∈ commits apply save (start v f requests) is := by
  rw [committed_run]
  refine or_iff_right ?_
  rintro ⟨c, hc, -, hcom⟩
  obtain ⟨q, -, rfl⟩ := List.mem_map.mp (List.mem_of_getElem? hc)
  exact absurd hcom Bool.false_ne_true

theorem request_of_commits {v : σ} {f : φ} {requests : List ρ} {is : List Nat}
    {r : ρ} (h : r ∈ (commits apply save (start v f requests) is).map Prod.snd) :
    r ∈ requests := by
  obtain ⟨⟨j, q⟩, hmem, rfl⟩ := List.mem_map.mp h
  obtain ⟨c, hc, rfl, -⟩ := (committed_iff v f requests is j q).mpr hmem
  have hreq : c.request ∈
      (run apply save (start v f requests) is).calls.map Call.request :=
    List.mem_map_of_mem (List.mem_of_getElem? hc)
  rw [run_requests, start, List.map_map] at hreq
  simpa [Call.start, Function.comp_def] using hreq

/-! ## The file -/

/-- The file is up to date, or someone who changed the value has yet to save. -/
def Current (save : σ → φ) (s : Shared ρ σ φ) : Prop :=
  s.file = save s.value ∨ ∃ c ∈ s.calls, c.phase = .saving

/-- Once anyone has changed the value, the file is current. -/
def CurrentOnce (save : σ → φ) (s : Shared ρ σ φ) : Prop :=
  (∃ c ∈ s.calls, c.phase.committed = true) → Current save s

theorem turn_currentOnce (h : CurrentOnce save s) (i : Nat) :
    CurrentOnce save (turn apply save s i) := by
  rcases turn_cases apply save s i with
    ⟨heq, -⟩ | ⟨r, hi, -, heq⟩ | ⟨r, v, hi, -, -, heq⟩ | ⟨r, hi, -, heq⟩ <;> rw [heq]
  · exact h
  · -- a refused call changes nothing and was not the one who had to save
    have hlt : i < s.calls.length := (List.getElem?_eq_some_iff.mp hi).1
    have hget : s.calls[i] = ⟨r, .entered⟩ := (List.getElem?_eq_some_iff.mp hi).2
    rintro ⟨c, hc, hcom⟩
    have hmem : c ∈ s.calls := by
      rcases List.mem_or_eq_of_mem_set hc with hmem | rfl
      · exact hmem
      · exact absurd hcom Bool.false_ne_true
    refine (h ⟨c, hmem, hcom⟩).imp id ?_
    rintro ⟨d, hd, hsav⟩
    obtain ⟨k, hk, rfl⟩ := List.mem_iff_getElem.mp hd
    have hik : i ≠ k := by
      rintro rfl
      rw [hget] at hsav
      cases hsav
    refine ⟨s.calls[k], List.mem_iff_getElem.mpr ⟨k, by simpa using hk, ?_⟩, hsav⟩
    exact List.getElem_set_of_ne hik _ _
  · have hlt : i < s.calls.length := (List.getElem?_eq_some_iff.mp hi).1
    exact fun _ => .inr ⟨_, List.mem_set hlt _, rfl⟩
  · exact fun _ => .inl rfl

theorem start_currentOnce (v : σ) (f : φ) (requests : List ρ) :
    CurrentOnce save (start v f requests) := by
  rintro ⟨c, hc, hcom⟩
  obtain ⟨r, -, rfl⟩ := List.mem_map.mp hc
  exact absurd hcom Bool.false_ne_true

theorem run_currentOnce (h : CurrentOnce save s) (is : List Nat) :
    CurrentOnce save (run apply save s is) := by
  induction is generalizing s with
  | nil => exact h
  | cons i is ih => exact ih (turn_currentOnce h i)

/-- When all calls have returned and one of them succeeded, the file holds the
value. -/
theorem run_current (h : CurrentOnce save s) (is : List Nat)
    (hdone : ∀ c ∈ (run apply save s is).calls, ∃ ok, c.phase = .returned ok)
    (hok : ∃ c ∈ (run apply save s is).calls, c.phase = .returned true) :
    (run apply save s is).file = save (run apply save s is).value := by
  obtain ⟨c, hc, hret⟩ := hok
  rcases run_currentOnce h is ⟨c, hc, by rw [hret]; rfl⟩ with hfile | ⟨d, hd, hsav⟩
  · exact hfile
  · obtain ⟨ok, hd'⟩ := hdone d hd
    rw [hd'] at hsav
    cases hsav

end WriteBehind

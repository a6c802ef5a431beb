import Mathlib.Data.List.GetD
import Mathlib.Data.List.Range
import VPlc.Bytes.Wire

/-!
# Accesses to byte buffers

A computation that keeps a list of its accesses to buffers: at which index, and
how long the buffer was. `Safe` says that none was outside. An access outside a
buffer has to come to something, so a load takes what lies there as a parameter,
`beyond`; what a safe computation returns does not depend on it.

For a computation that is safe there is one rule for each construct
(`Returns.bind`, `Returns.foldlM`, …), which gives its value and its safety
together. For one that may not be, `safe_bind` and its companions take the
question apart.
-/

namespace Bytes

theorem range_map_getD {bs : List UInt8} {i n : Nat} (h : i + n ≤ bs.length) :
    (List.range n).map (fun k => bs.getD (i + k) 0) = (bs.drop i).take n := by
  refine List.ext_getElem ?_ ?_
  · simp only [List.length_map, List.length_range, List.length_take, List.length_drop]
    omega
  · intro k hk _
    rw [List.length_map, List.length_range] at hk
    rw [List.getElem_map, List.getElem_range, List.getElem_take, List.getElem_drop,
      List.getD_eq_getElem _ _ (by omega)]

structure Access where
  index : Nat
  size : Nat
  deriving DecidableEq

structure Logged (α : Type) where
  value : α
  log : List Access

namespace Logged

instance : Monad Logged where
  pure a := ⟨a, []⟩
  bind x f := ⟨(f x.value).value, x.log ++ (f x.value).log⟩

variable {α β σ : Type}

/-- No access is outside its buffer. -/
def Safe (x : Logged α) : Prop := ∀ a ∈ x.log, a.index < a.size

section Laws

variable (a : α) (x : Logged α) (f : α → Logged β)

@[simp] theorem value_pure : (pure a : Logged α).value = a := rfl

@[simp] theorem value_bind : (x >>= f).value = (f x.value).value := rfl

@[simp] theorem safe_pure : (pure a : Logged α).Safe := by
  intro b hb
  cases hb

@[simp] theorem safe_bind : (x >>= f).Safe ↔ x.Safe ∧ (f x.value).Safe :=
  List.forall_mem_append

end Laws

theorem bind_assoc {γ : Type} (x : Logged α) (f : α → Logged β) (g : β → Logged γ) :
    x >>= f >>= g = x >>= fun a => f a >>= g := by
  show (⟨_, (x.log ++ (f x.value).log) ++ _⟩ : Logged γ) = ⟨_, x.log ++ (_ ++ _)⟩
  rw [List.append_assoc]
  rfl

theorem id_map (x : Logged α) : id <$> x = x := by
  show (⟨x.value, x.log ++ []⟩ : Logged α) = x
  rw [List.append_nil]

instance : LawfulMonad Logged :=
  LawfulMonad.mk' Logged id_map (fun _ _ => rfl) bind_assoc

/-! ## Accesses -/

section Access

variable (beyond : Nat → UInt8) (bs : List UInt8) (i : Nat)

/-- `bs[i]`. -/
def load : Logged UInt8 := ⟨bs.getD i (beyond i), [⟨i, bs.length⟩]⟩

/-- `bs[i] = v`. -/
def store (v : UInt8) : Logged (List UInt8) := ⟨bs.set i v, [⟨i, bs.length⟩]⟩

/-- `bs[i] = f(bs[i])`. -/
def modify (f : UInt8 → UInt8) : Logged (List UInt8) := ⟨bs.modify i f, [⟨i, bs.length⟩]⟩

def loadBe16 : Logged UInt16 := do
  let h ← load beyond bs i
  let l ← load beyond bs (i + 1)
  pure (word h l)

def loadLe16 : Logged UInt16 := do
  let l ← load beyond bs i
  let h ← load beyond bs (i + 1)
  pure (word h l)

/-- `n` bytes from an index on. -/
def loadSlice (n : Nat) : Logged (List UInt8) :=
  (List.range n).mapM fun k => load beyond bs (i + k)

def storeLe16 (w : UInt16) : Logged (List UInt8) := do
  let bs ← store bs i (low w)
  store bs (i + 1) (high w)

/-- `data` copied to an index. -/
def storeSlice (data : List UInt8) : Logged (List UInt8) :=
  (List.range data.length).foldlM (fun bs k => store bs (i + k) (data.getD k 0)) bs

@[simp] theorem safe_load : (load beyond bs i).Safe ↔ i < bs.length :=
  List.forall_mem_singleton

@[simp] theorem safe_store (v : UInt8) : (store bs i v).Safe ↔ i < bs.length :=
  List.forall_mem_singleton

@[simp] theorem safe_modify (f : UInt8 → UInt8) : (modify bs i f).Safe ↔ i < bs.length :=
  List.forall_mem_singleton

@[simp] theorem safe_loadLe16 : (loadLe16 beyond bs i).Safe ↔ i + 1 < bs.length := by
  simp only [loadLe16, safe_bind, safe_load, safe_pure, and_true]
  omega

@[simp] theorem safe_loadBe16 : (loadBe16 beyond bs i).Safe ↔ i + 1 < bs.length := by
  simp only [loadBe16, safe_bind, safe_load, safe_pure, and_true]
  omega

end Access

/-! ## Safe computations -/

/-- The computation is safe, and this is its value. -/
structure Returns (x : Logged α) (v : α) : Prop where
  safe : x.Safe
  value : x.value = v

namespace Returns

variable {x : Logged α} {y : Logged α} {f : α → Logged β} {v : α} {w : β}

theorem pure (v : α) : (Pure.pure v : Logged α).Returns v := ⟨safe_pure v, rfl⟩

theorem bind (hx : x.Returns v) (hf : (f v).Returns w) : (x >>= f).Returns w := by
  obtain ⟨hsafe, rfl⟩ := hx
  exact ⟨(safe_bind x f).mpr ⟨hsafe, hf.safe⟩, hf.value⟩

theorem bind_value (hx : x.Returns v) : (x >>= f).value = (f v).value := by
  rw [value_bind, hx.value]

theorem bind_safe (hx : x.Returns v) : (x >>= f).Safe ↔ (f v).Safe := by
  rw [safe_bind, hx.value]
  exact and_iff_right hx.safe

theorem ite {c : Prop} [Decidable c] {v' : α} (hx : c → x.Returns v)
    (hy : ¬ c → y.Returns v') : (if c then x else y).Returns (if c then v else v') := by
  split
  · next hc => exact hx hc
  · next hc => exact hy hc

theorem foldlM {g : σ → Nat → Logged σ} {n : Nat} (s : Nat → σ)
    (h : ∀ i < n, (g (s i) i).Returns (s (i + 1))) :
    ((List.range n).foldlM g (s 0)).Returns (s n) := by
  induction n with
  | zero => exact pure _
  | succ n ih =>
      rw [List.range_succ, List.foldlM_append]
      refine bind (ih fun i hi => h i (by omega)) ?_
      exact bind (h n (by omega)) (pure _)

theorem foldl {g : σ → α → Logged σ} {h : σ → α → σ} {l : List α}
    (hstep : ∀ s, ∀ a ∈ l, (g s a).Returns (h s a)) (s : σ) :
    (l.foldlM g s).Returns (l.foldl h s) := by
  induction l generalizing s with
  | nil => exact pure _
  | cons a l ih =>
      rw [List.foldlM_cons, List.foldl_cons]
      exact bind (hstep s a List.mem_cons_self)
        (ih (fun s b hb => hstep s b (List.mem_cons_of_mem a hb)) _)

theorem mapM {g : Nat → Logged β} {w : Nat → β} {l : List Nat}
    (h : ∀ i ∈ l, (g i).Returns (w i)) : (l.mapM g).Returns (l.map w) := by
  induction l with
  | nil => exact pure _
  | cons i l ih =>
      obtain ⟨hi, hl⟩ := List.forall_mem_cons.mp h
      rw [List.mapM_cons]
      exact bind hi (bind (ih hl) (pure _))

section Access

variable {bs : List UInt8} {i : Nat} (beyond : Nat → UInt8)

theorem load (h : i < bs.length) : (load beyond bs i).Returns (bs.getD i 0) := by
  refine ⟨(safe_load beyond bs i).mpr h, ?_⟩
  show bs.getD i (beyond i) = _
  rw [List.getD_eq_getElem _ _ h, List.getD_eq_getElem _ _ h]

theorem set (h : i < bs.length) (v : UInt8) : (store bs i v).Returns (bs.set i v) :=
  ⟨(safe_store bs i v).mpr h, rfl⟩

theorem modify (h : i < bs.length) (f : UInt8 → UInt8) :
    (modify bs i f).Returns (bs.modify i f) :=
  ⟨(safe_modify bs i f).mpr h, rfl⟩

theorem loadBe16 (h : i + 1 < bs.length) : (loadBe16 beyond bs i).Returns (be16 bs i) :=
  bind (load beyond (by omega)) (bind (load beyond h) (pure _))

theorem loadLe16 (h : i + 1 < bs.length) : (loadLe16 beyond bs i).Returns (le16 bs i) :=
  bind (load beyond (by omega)) (bind (load beyond h) (pure _))

theorem loadSlice {n : Nat} (h : i + n ≤ bs.length) :
    (loadSlice beyond bs i n).Returns ((bs.drop i).take n) := by
  rw [← range_map_getD h]
  refine mapM fun k hk => load beyond ?_
  have := List.mem_range.mp hk
  omega

end Access

/-! A buffer that is filled is what is in it and what is still to be overwritten. -/

section Fill

variable {pre rest : List UInt8} {i : Nat}

theorem store (h : pre.length = i) (old v : UInt8) :
    (store (pre ++ old :: rest) i v).Returns (pre ++ v :: rest) := by
  subst h
  refine ⟨?_, ?_⟩
  · rw [safe_store, List.length_append, List.length_cons]
    omega
  · show (pre ++ old :: rest).set pre.length v = _
    rw [List.set_append_right _ _ (Nat.le_refl _), Nat.sub_self, List.set_cons_zero]

theorem storeLe16 (h : pre.length = i) (old old' : UInt8) (w : UInt16) :
    (storeLe16 (pre ++ old :: old' :: rest) i w).Returns (pre ++ (leBytes w ++ rest)) := by
  have hfst : (Logged.store (pre ++ old :: old' :: rest) i (low w)).Returns _ := store h old _
  have hlen : (pre ++ [low w]).length = i + 1 := by
    rw [List.length_append, h]
    rfl
  have hsnd : (Logged.store ((pre ++ [low w]) ++ old' :: rest) (i + 1) (high w)).Returns _ :=
    store hlen old' _
  rw [List.append_assoc, List.append_assoc] at hsnd
  exact bind hfst hsnd

theorem storeSlice (h : pre.length = i) {old data : List UInt8}
    (hlen : old.length = data.length) :
    (storeSlice (pre ++ (old ++ rest)) i data).Returns (pre ++ (data ++ rest)) := by
  have hloop := @foldlM (List UInt8) (fun bs k => Logged.store bs (i + k) (data.getD k 0))
    data.length (fun k => (pre ++ data.take k) ++ (old.drop k ++ rest)) ?_
  · have hall : data.take data.length = data := List.take_length
    have hnone : old.drop data.length = [] := by rw [← hlen, List.drop_length]
    rwa [hall, hnone, List.take_zero, List.append_nil, List.drop_zero, List.nil_append,
      List.append_assoc] at hloop
  · intro k hk
    have hold : old.drop k = old.getD k 0 :: old.drop (k + 1) := by
      rw [List.drop_eq_getElem_cons (by omega), List.getD_eq_getElem _ _ (by omega)]
    have htake : data.take (k + 1) = data.take k ++ [data.getD k 0] := by
      rw [List.take_add_one, List.getElem?_eq_getElem hk, List.getD_eq_getElem _ _ hk]
      rfl
    have hpre : (pre ++ data.take k).length = i + k := by
      rw [List.length_append, List.length_take, h]
      omega
    rw [hold, htake]
    have hstore : (Logged.store ((pre ++ data.take k) ++ old.getD k 0 ::
        (old.drop (k + 1) ++ rest)) (i + k) (data.getD k 0)).Returns _ := store hpre _ _
    simpa using hstore

end Fill

end Returns

end Logged

end Bytes

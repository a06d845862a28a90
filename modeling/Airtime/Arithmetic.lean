/-!
Words of fixed width, computed with so that leaving the range is reported and never wraps.
Each operation succeeds exactly when the exact result fits, and then its value is that result
(`Word.add_eq_ok`, `Word.sub_eq_ok`, `Word.mul_eq_ok`); division succeeds unless the divisor is zero.
-/

namespace Airtime

/-- How a computation on words can leave its range. -/
inductive Fault where
  | add
  | subtract
  | multiply
  | shift
  | divide
  deriving DecidableEq, Repr

def Fault.message : Fault → String
  | .add => "attempt to add with overflow"
  | .subtract => "attempt to subtract with overflow"
  | .multiply => "attempt to multiply with overflow"
  | .shift => "attempt to shift left with overflow"
  | .divide => "attempt to divide by zero"

/-- Words of one width: the naturals below `size`. -/
class Word (ω : Type) where
  size : Nat
  toNat : ω → Nat
  ofNat : Nat → ω
  toNat_lt : ∀ w, toNat w < size
  toNat_ofNat : ∀ n, n < size → toNat (ofNat n) = n
  toNat_inj : ∀ a b, toNat a = toNat b → a = b

instance : Word UInt8 where
  size := UInt8.size
  toNat := UInt8.toNat
  ofNat := UInt8.ofNat
  toNat_lt := UInt8.toNat_lt
  toNat_ofNat _ h := UInt8.toNat_ofNat_of_lt' h
  toNat_inj _ _ h := UInt8.toNat_inj.mp h

instance : Word UInt16 where
  size := UInt16.size
  toNat := UInt16.toNat
  ofNat := UInt16.ofNat
  toNat_lt := UInt16.toNat_lt
  toNat_ofNat _ h := UInt16.toNat_ofNat_of_lt' h
  toNat_inj _ _ h := UInt16.toNat_inj.mp h

instance : Word UInt32 where
  size := UInt32.size
  toNat := UInt32.toNat
  ofNat := UInt32.ofNat
  toNat_lt := UInt32.toNat_lt
  toNat_ofNat _ h := UInt32.toNat_ofNat_of_lt' h
  toNat_inj _ _ h := UInt32.toNat_inj.mp h

instance : Word UInt64 where
  size := UInt64.size
  toNat := UInt64.toNat
  ofNat := UInt64.ofNat
  toNat_lt := UInt64.toNat_lt
  toNat_ofNat _ h := UInt64.toNat_ofNat_of_lt' h
  toNat_inj _ _ h := UInt64.toNat_inj.mp h

namespace Word

variable {ω : Type} [Word ω]

def fit (n : Nat) (fault : Fault) : Except Fault ω :=
  if n < size ω then .ok (ofNat n) else .error fault

def add (a b : ω) : Except Fault ω := fit (toNat a + toNat b) .add

def sub (a b : ω) : Except Fault ω :=
  if toNat b ≤ toNat a then .ok (ofNat (toNat a - toNat b)) else .error .subtract

def mul (a b : ω) : Except Fault ω := fit (toNat a * toNat b) .multiply

def div (a b : ω) : Except Fault ω :=
  if toNat b = 0 then .error .divide else .ok (ofNat (toNat a / toNat b))

def mod (a b : ω) : Except Fault ω :=
  if toNat b = 0 then .error .divide else .ok (ofNat (toNat a % toNat b))

def sum (ws : List ω) : Except Fault ω := ws.foldlM add (ofNat 0)

/-- The largest word where the product does not fit. -/
def mulSat (a b : ω) : ω := ofNat (min (toNat a * toNat b) (size ω - 1))

def addSat (a b : ω) : ω := ofNat (min (toNat a + toNat b) (size ω - 1))

def subSat (a b : ω) : ω := ofNat (toNat a - toNat b)

theorem fit_eq_ok {n : Nat} {fault : Fault} {c : ω} : fit n fault = .ok c ↔ toNat c = n := by
  unfold fit
  constructor
  · intro h
    split at h
    · next hn => cases h; exact toNat_ofNat n hn
    · cases h
  · rintro rfl
    rw [if_pos (toNat_lt c)]
    exact congrArg _ (toNat_inj _ _ (toNat_ofNat _ (toNat_lt c)))

theorem add_eq_ok {a b c : ω} : add a b = .ok c ↔ toNat c = toNat a + toNat b := fit_eq_ok

theorem mul_eq_ok {a b c : ω} : mul a b = .ok c ↔ toNat c = toNat a * toNat b := fit_eq_ok

theorem sub_eq_ok {a b c : ω} : sub a b = .ok c ↔ toNat a = toNat c + toNat b := by
  unfold sub
  have ha := toNat_lt a
  constructor
  · intro h
    split at h
    · next hle => cases h; rw [toNat_ofNat _ (by omega)]; omega
    · cases h
  · intro h
    rw [if_pos (by omega)]
    exact congrArg _ (toNat_inj _ _ (by rw [toNat_ofNat _ (by omega)]; omega))

theorem div_eq_ok {a b c : ω} : div a b = .ok c ↔ toNat b ≠ 0 ∧ toNat c = toNat a / toNat b := by
  have hlt : toNat a / toNat b < size ω := Nat.lt_of_le_of_lt (Nat.div_le_self _ _) (toNat_lt a)
  unfold div
  split
  · next h0 => simp [h0]
  · next h0 =>
    rw [Except.ok.injEq]
    refine ⟨fun h => ⟨h0, h ▸ toNat_ofNat _ hlt⟩, fun ⟨_, h⟩ => ?_⟩
    exact toNat_inj _ _ (by rw [toNat_ofNat _ hlt, h])

end Word

end Airtime

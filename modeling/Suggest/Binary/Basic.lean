/-
# Binary floating point formats

A number of a format is not a number (`nan`), an infinity, or a sign and a magnitude. Magnitudes are counted upwards from
zero, which is the order of their bit patterns: `units k` is the `k`-th of them as a multiple of the format's least
positive number `2 ^ -scale`.

| format | fraction bits | scale | magnitudes |
| --- | ---: | ---: | ---: |
| `single` | 23 | 149 | `255 · 2 ^ 23` |
| `double` | 52 | 1074 | `2047 · 2 ^ 52` |

Below `2 ^ fractionBits` the magnitudes are the multiples themselves; above, each group of `2 ^ fractionBits` magnitudes
is twice as far apart as the group before. There is one `nan`, so two numbers are the same exactly when their forms are.
-/

namespace Suggest

/-- A binary format: how many bits a fraction has, the least positive number, and how many finite magnitudes there
are. -/
structure Format where
  fractionBits : Nat
  scale : Nat
  limit : Nat
  limit_pos : 0 < limit

namespace Format

/-- The format with 32 bits. -/
def single : Format := ⟨23, 149, 255 <<< 23, by decide⟩

/-- The format with 64 bits. -/
def double : Format := ⟨52, 1074, 2047 <<< 52, by decide⟩

/-- The `k`-th magnitude as a multiple of the least positive number. -/
def units (f : Format) (k : Nat) : Nat :=
  let group := 1 <<< f.fractionBits
  if k < group then k else (group + k % group) <<< (k / group - 1)

@[simp] theorem units_zero (f : Format) : f.units 0 = 0 := by
  simp [units]

end Format

/-- A number of the format. -/
inductive Binary (f : Format) where
  | nan
  | infinite (negative : Bool)
  | finite (negative : Bool) (magnitude : Fin f.limit)
  deriving DecidableEq

/-- A number with 32 bits. -/
abbrev Single := Binary .single

/-- A number with 64 bits. -/
abbrev Double := Binary .double

namespace Binary

variable {f : Format}

/-- Zero with a sign. -/
def signedZero (negative : Bool) : Binary f := .finite negative ⟨0, f.limit_pos⟩

instance : Inhabited (Binary f) := ⟨signedZero false⟩

/-- Whether the number is a zero of either sign. -/
def isZero : Binary f → Bool
  | .finite _ k => k.val = 0
  | _ => false

/-- Whether the number is neither infinite nor `nan`. -/
def isFinite : Binary f → Bool
  | .finite .. => true
  | _ => false

/-- The place of a number in the order of its format, the same for both zeros; `nan` has none. -/
def rank? : Binary f → Option Int
  | .nan => none
  | .infinite negative => some (if negative then -f.limit else f.limit)
  | .finite negative k => some (if negative then -k.val else k.val)

/-- Whether both are numbers and the first is the smaller. -/
def less (x y : Binary f) : Bool :=
  match x.rank?, y.rank? with
  | some a, some b => a < b
  | _, _ => false

/-- Nothing is less than itself. -/
theorem less_irrefl (x : Binary f) : x.less x = false := by
  unfold less; split
  · next h₁ h₂ => rw [h₁] at h₂; cases h₂; simp
  · rfl

theorem less_trans {x y z : Binary f} (h₁ : x.less y = true) (h₂ : y.less z = true) : x.less z = true := by
  unfold less at *
  generalize x.rank? = a at *; generalize y.rank? = b at *; generalize z.rank? = c at *
  cases a <;> cases b <;> cases c <;> simp_all
  omega

/-- The bit pattern in a format of `width` bits; that of `nan` has a clear sign and only the first fraction bit. -/
def bits (width : Nat) : Binary f → Nat
  | .nan => f.limit + 1 <<< (f.fractionBits - 1)
  | .infinite negative => f.limit + if negative then 1 <<< (width - 1) else 0
  | .finite negative k => k.val + if negative then 1 <<< (width - 1) else 0

end Binary

end Suggest

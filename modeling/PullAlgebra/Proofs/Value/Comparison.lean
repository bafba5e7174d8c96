import PullAlgebra.Source.HashTable
import PullAlgebra.Value.Order

/-!
# PullAlgebra.Proofs.Value.Comparison

Comparing values against hashing them. Values that columns of one type store always compare, and
they compare as equal just when they make the same part of a key. Only doubles need work: the order
of doubles is read off their unpacked forms, and finite doubles that are equal as numbers have the
same bits unless both are zero.

* `compareFloats?_eq`: the three tests for doubles come to one comparison of unpacked doubles.
* `beq_iff_of_isFinite`: equality of finite doubles as numbers.
* `Value.exists_compare?`, `KeyAtom.ofValue_eq_iff`, `Value.equal_iff`: the three ways to compare
  stored values.
-/

namespace PullAlgebra
namespace Binary64

open Float.Model (UnpackedFloat)
open Float.Model.UnpackedFloat Float.Model.Format

theorem compare_swap (u v : UnpackedFloat) : v.compare u = (u.compare v).map Ordering.swap := by
  have swap (e e' : Int) (m m' : Nat) :
      (compare e' e).then (compare m' m) = ((compare e e').then (compare m m')).swap := by
    rw [Ordering.swap_then, ← Std.OrientedOrd.eq_swap, ← Std.OrientedOrd.eq_swap]
  rcases u with (_ | _) | _ | (_ | _) | ⟨_ | _, m, e, _⟩ <;>
    rcases v with (_ | _) | _ | (_ | _) | ⟨_ | _, m', e', _⟩ <;>
    first
      | rfl
      | exact congrArg some (swap e e' m m')
      | exact congrArg (some ∘ Ordering.swap) (swap e e' m m')

theorem lt_iff {a b : Float} :
    a < b ↔ a.toModel.unpack.compare b.toModel.unpack = some .lt := by
  change Float.lt a b = true ↔ _
  unfold Float.lt
  rw [decide_eq_true_iff]
  change (a.toModel.unpack.compare b.toModel.unpack == some .lt) = true ↔ _
  rw [beq_iff_eq]

theorem beq_iff {a b : Float} :
    a == b ↔ a.toModel.unpack.compare b.toModel.unpack = some .eq := by
  change (a.toModel.unpack.compare b.toModel.unpack == some .eq) = true ↔ _
  rw [beq_iff_eq]

theorem compareFloats?_eq (a b : Float) :
    compareFloats? a b = a.toModel.unpack.compare b.toModel.unpack := by
  simp only [compareFloats?, lt_iff, beq_iff, compare_swap a.toModel.unpack]
  rcases a.toModel.unpack.compare b.toModel.unpack with _ | _ | _ | _ <;> rfl

theorem exists_compare {u v : UnpackedFloat} (hu : u.isFinite) (hv : v.isFinite) :
    ∃ o, u.compare v = some o := by
  rcases u with _ | _ | (_ | _) | ⟨_ | _, m, e, _⟩ <;> try cases hu
  all_goals rcases v with _ | _ | (_ | _) | ⟨_ | _, m', e', _⟩ <;> try cases hv
  all_goals exact ⟨_, rfl⟩

def IsZero : UnpackedFloat → Prop
  | .zero _ => True
  | _ => False

theorem compare_then_eq_iff {e e' : Int} {m m' : Nat} :
    (compare e e').then (compare m m') = .eq ↔ e = e' ∧ m = m' := by
  rw [Ordering.then_eq_eq, Std.LawfulEqOrd.compare_eq_iff_eq, Std.LawfulEqOrd.compare_eq_iff_eq]

theorem compare_finite_eq_iff {s s' : Sign} {m m' : Nat} {e e' : Int} {h : 0 < m}
    {h' : 0 < m'} :
    (finite s m e h).compare (finite s' m' e' h') = some .eq ↔
      finite s m e h = finite s' m' e' h' := by
  constructor
  · intro eq
    cases s <;> cases s'
    case positive.positive =>
      obtain ⟨rfl, rfl⟩ := compare_then_eq_iff.1 (Option.some.inj eq)
      rfl
    case negative.negative =>
      obtain ⟨rfl, rfl⟩ := compare_then_eq_iff.1 (Ordering.swap_eq_eq.1 (Option.some.inj eq))
      rfl
    all_goals cases eq
  · intro eq
    cases eq
    have same := compare_then_eq_iff.2 (And.intro (Eq.refl e) (Eq.refl m))
    cases s with
    | positive => exact congrArg some same
    | negative => exact congrArg some (Ordering.swap_eq_eq.2 same)

theorem compare_eq_iff {u v : UnpackedFloat} (hu : u.isFinite) (hv : v.isFinite) :
    u.compare v = some .eq ↔ u = v ∨ IsZero u ∧ IsZero v := by
  rcases u with _ | _ | s | ⟨s, m, e, h⟩ <;> try cases hu
  all_goals rcases v with _ | _ | s' | ⟨s', m', e', h'⟩ <;> try cases hv
  · exact ⟨fun _ => .inr ⟨trivial, trivial⟩, fun _ => rfl⟩
  · cases s' <;> exact ⟨nofun, nofun⟩
  · cases s <;> exact ⟨nofun, nofun⟩
  · rw [compare_finite_eq_iff]
    exact ⟨.inl, fun eq => eq.elim id fun zero => zero.1.elim⟩

theorem beq_zero_iff {x : Float} : x == 0 ↔ IsZero x.toModel.unpack := by
  rw [beq_iff]
  change UnpackedFloat.compare _ (.zero .positive) = _ ↔ _
  rcases x.toModel.unpack with (_ | _) | _ | s | ⟨_ | _, m, e, _⟩
  case zero => exact ⟨fun _ => trivial, fun _ => rfl⟩
  all_goals exact ⟨nofun, nofun⟩

theorem exponentField_of_isFinite {x : Float} (h : x.isFinite) :
    exponentField x.toBits ≠ 2047 := by
  intro he
  have he : @unpackExponent binary64 x.toBits.toBitVec = -1#11 :=
    (unpackExponent_eq_iff _ _).2 he
  change (UnpackedFloat.unpack binary64 x.toBits.toBitVec).isFinite = true at h
  unfold UnpackedFloat.unpack at h
  dsimp only at h
  rw [if_pos he] at h
  split at h <;> cases h

theorem eq_of_toBits {x y : Float} (h : x.toBits = y.toBits) : x = y := by
  obtain ⟨bits, _⟩ := x
  obtain ⟨bits', _⟩ := y
  obtain rfl : bits = bits' := by cases bits; cases bits'; cases h; rfl
  rfl

theorem eq_of_unpack {x y : Float} (hx : x.isFinite) (hy : y.isFinite)
    (h : x.toModel.unpack = y.toModel.unpack) : x = y := by
  have packed := congrArg (pack binary64) h
  have hx := pack_unpack x.toBits fun e => absurd e (exponentField_of_isFinite hx)
  have hy := pack_unpack y.toBits fun e => absurd e (exponentField_of_isFinite hy)
  exact eq_of_toBits (UInt64.toBitVec_inj.1 (hx.symm.trans (packed.trans hy)))

theorem beq_iff_of_isFinite {x y : Float} (hx : x.isFinite) (hy : y.isFinite) :
    x == y ↔ x = y ∨ x == 0 ∧ y == 0 := by
  rw [beq_iff, compare_eq_iff hx hy, beq_zero_iff, beq_zero_iff]
  exact or_congr_left ⟨eq_of_unpack hx hy, fun h => h ▸ rfl⟩

theorem beq_zero_of_toBits {x : Float} (h : x.toBits = 0) : x == 0 := by
  have : x = 0 := eq_of_toBits (h.trans (by rfl))
  subst this
  rfl

/-- The bits that a double has in a key stand for the double up to equality as a number. -/
theorem keyBits_eq_iff {x y : Float} (hx : x.isFinite) (hy : y.isFinite) :
    ((if x == 0 then 0 else x.toBits) = if y == 0 then 0 else y.toBits) ↔ x == y := by
  rw [beq_iff_of_isFinite hx hy]
  by_cases zx : x == 0 <;> by_cases zy : y == 0
  · simp [zx, zy]
  · have apart : ¬0 = y.toBits := fun h => zy (beq_zero_of_toBits h.symm)
    have differ : ¬x = y := fun h => zy (h ▸ zx)
    simp [zx, zy, apart, differ]
  · have apart : ¬x.toBits = 0 := fun h => zx (beq_zero_of_toBits h)
    have differ : ¬x = y := fun h => zx (h ▸ zy)
    simp [zx, zy, apart, differ]
  · have same : x.toBits = y.toBits ↔ x = y := ⟨eq_of_toBits, congrArg Float.toBits⟩
    simp [zx, zy, same]

end Binary64

section Stored

variable {type : ColumnType} {v w : Value}

theorem Value.exists_compare? (hv : type.Stores v) (hw : type.Stores w) :
    ∃ o, v.compare? w = some o := by
  obtain ⟨rfl, fv⟩ := hv
  obtain ⟨hw, fw⟩ := hw
  cases v <;> cases w <;> cases hw
  case float.float.refl x y =>
    obtain ⟨o, ho⟩ := Binary64.exists_compare (fv x rfl) (fw y rfl)
    exact ⟨o, (Binary64.compareFloats?_eq x y).trans ho⟩
  all_goals exact ⟨_, rfl⟩

theorem KeyAtom.ofValue_eq_iff (hv : type.Stores v) (hw : type.Stores w) :
    ofValue v = ofValue w ↔ v.compare? w = some .eq := by
  obtain ⟨rfl, fv⟩ := hv
  obtain ⟨hw, fw⟩ := hw
  cases v <;> cases w <;> cases hw
  case float.float.refl x y =>
    change float _ = float _ ↔ compareFloats? x y = some .eq
    rw [Binary64.compareFloats?_eq, ← Binary64.beq_iff,
      ← Binary64.keyBits_eq_iff (fv x rfl) (fw y rfl), float.injEq]
  all_goals simp [ofValue, Value.compare?, Value.numbers?, NumberPair.compare?]

theorem Value.equal_iff (hv : type.Stores v) (hw : type.Stores w) :
    v.equal w ↔ v.compare? w = some .eq := by
  obtain ⟨rfl, fv⟩ := hv
  obtain ⟨hw, fw⟩ := hw
  cases v <;> cases w <;> cases hw
  case float.float.refl x y =>
    change x == y ↔ compareFloats? x y = some .eq
    rw [Binary64.compareFloats?_eq, Binary64.beq_iff]
  all_goals simp [equal, compare?, numbers?, NumberPair.compare?]

end Stored
end PullAlgebra

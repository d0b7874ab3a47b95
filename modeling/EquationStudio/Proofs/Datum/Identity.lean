import EquationStudio.Datum.Key
import EquationStudio.Proofs.Datum.Equality
import EquationStudio.Proofs.Numeric.Nearest

/-!
# Keys and equality

Data that are equal make the same key, and data that make the same key are equal, with one
exception: the undefined double makes a key and equals nothing, not even itself. So two
identities that equal themselves are equal exactly if their keys are
(`Identity.Selfsame.equal_iff`).
-/

namespace EquationStudio

/-! ## Keys -/

/-- The key of a double is a number. -/
theorem Key.ofDouble_cases (x : Double) : (∃ n, ofDouble x = .whole n) ∨ ofDouble x = .real x := by
  unfold ofDouble
  split
  · next y =>
    cases y.toInt? with
    | none => exact .inr rfl
    | some n => exact .inl ⟨n, rfl⟩
  · exact .inr rfl

/-- Only null makes the key of null. -/
theorem Datum.eq_null_of_key {d : Datum} (h : d.key = .ok .null) : d = .null := by
  cases d with
  | null => rfl
  | float x =>
    have hkey : Key.ofDouble x = .null := Except.ok.inj h
    obtain ⟨n, hx⟩ | hx := Key.ofDouble_cases x <;> cases hkey.symm.trans hx
  | bool | int | text | list | record => cases h

/-- Only a text makes its key. -/
theorem Datum.eq_text_of_key {d : Datum} {s : String}
    (h : d.key = .ok (.text s)) : d = .text s := by
  cases d with
  | text t => cases h; rfl
  | float x =>
    have hkey : Key.ofDouble x = .text s := Except.ok.inj h
    obtain ⟨n, hx⟩ | hx := Key.ofDouble_cases x <;> cases hkey.symm.trans hx
  | null | bool | int | list | record => cases h

/-- The identity of a datum is that datum. -/
theorem Identity.datum_of_ofDatum {d : Datum} {i : Identity} (h : Identity.ofDatum d = .ok i) :
    i.datum = d := by
  unfold Identity.ofDatum at h
  split at h
  · cases h; rfl
  · cases h

/-! ## Numbers -/

/-- A finite double that is a whole number makes the key of that number, and no other does. -/
theorem Key.ofDouble_eq_whole {x : FiniteDouble} {n : Int} :
    ofDouble (.finite x) = .whole n ↔ x.toInt? = some n := by
  unfold ofDouble
  dsimp only
  cases x.toInt? <;> simp

/-- A finite double is a whole number exactly if it measures as much. -/
theorem FiniteDouble.toInt?_eq_some_iff {x : FiniteDouble} {n : Int} :
    x.toInt? = some n ↔ n * Nat.pow 2 stepBits = x.steps := by
  have hpow : ∀ k, Nat.pow 2 k = 2 ^ k := fun _ => rfl
  rw [toInt?_eq_some, hpow, eq_comm]

/-- Only doubles that are no whole numbers keep their own key. -/
theorem Key.ofDouble_eq_real {x : FiniteDouble} {y : Double} (h : ofDouble (.finite x) = .real y) :
    y = .finite x := by
  unfold ofDouble at h
  dsimp only at h
  cases hx : x.toInt? with
  | some n => rw [hx] at h; cases h
  | none => rw [hx] at h; cases h; rfl

/-- Finite doubles that are no whole numbers are the same if they measure the same. -/
theorem FiniteDouble.eq_of_steps {x y : FiniteDouble} (hx : x.toInt? = none)
    (h : x.steps = y.steps) : x = y := by
  have hcode : x.code = y.code := by
    have hnat := congrArg Int.natAbs h
    rw [x.natAbs_steps, y.natAbs_steps] at hnat
    exact Fin.ext (strictMono_codeSteps.injective hnat)
  -- A double with a fraction is not zero, so that its steps tell its sign.
  have hne : (codeSteps x.code : Int) ≠ 0 := fun hzero => by
    have hsteps : x.steps = 0 := Int.natAbs_eq_zero.1 (x.natAbs_steps.trans (Int.ofNat.inj hzero))
    rw [toInt?_eq_some.2 (hsteps.trans (Int.zero_mul _).symm)] at hx
    cases hx
  obtain ⟨s, c⟩ := x
  obtain ⟨t, d⟩ := y
  obtain rfl : c = d := hcode
  cases s <;> cases t <;> simp only [steps, if_true, if_false, Bool.false_eq_true]
    at h hne ⊢ <;> omega

/-- Finite doubles make the same key exactly if they measure the same. -/
theorem Key.ofDouble_inj {x y : FiniteDouble} :
    ofDouble (.finite x) = ofDouble (.finite y) ↔ x.steps = y.steps := by
  constructor
  · intro h
    obtain ⟨n, hn⟩ | hreal := ofDouble_cases (.finite y)
    · rw [FiniteDouble.toInt?_eq_some.1 (ofDouble_eq_whole.1 hn),
        FiniteDouble.toInt?_eq_some.1 (ofDouble_eq_whole.1 (h.trans hn))]
    · cases ofDouble_eq_real (h.trans hreal)
      rfl
  · intro h
    cases hx : x.toInt? with
    | some n =>
      have hy : y.toInt? = some n := by
        rw [FiniteDouble.toInt?_eq_some, ← h, FiniteDouble.toInt?_eq_some.1 hx]
      rw [ofDouble_eq_whole.2 hx, ofDouble_eq_whole.2 hy]
    | none => rw [FiniteDouble.eq_of_steps hx h]

namespace Datum

/-- The key of a number. -/
def Quantity.key : Quantity → Key
  | whole n => .whole n
  | real x => .ofDouble x

/-- The key of a datum that stands for a number is that of the number. -/
theorem key_of_quantity {d : Datum} {q : Quantity} (h : d.quantity? = some q) :
    d.key = .ok q.key := by
  cases d <;> cases h <;> rfl

/-- Numbers that are equal make the same key. -/
theorem Quantity.key_eq_of_equal {p q : Quantity} (h : p.equal q = true) : p.key = q.key := by
  have hwhole : ∀ {x : FiniteDouble} {n : Int}, n * Nat.pow 2 stepBits = x.steps →
      Key.ofDouble (.finite x) = .whole n := fun h =>
    Key.ofDouble_eq_whole.2 (FiniteDouble.toInt?_eq_some_iff.2 h)
  match p, q, h with
  | .whole m, .whole n, h => rw [eq_of_beq h]
  | .whole m, .real (.finite y), h => exact (hwhole (eq_of_beq h)).symm
  | .real (.finite x), .whole n, h => exact hwhole (eq_of_beq h)
  | .real (.finite x), .real (.finite y), h => exact Key.ofDouble_inj.2 (eq_of_beq h)
  | .real (.infinite s), .real (.infinite t), h => rw [eq_of_beq h]

/-- A number that equals itself equals every other that makes the same key. -/
theorem Quantity.equal_of_key_eq {p q : Quantity} (hp : p.equal p = true) (h : p.key = q.key) :
    p.equal q = true := by
  have hwhole : ∀ {x : FiniteDouble} {n : Int}, Key.ofDouble (.finite x) = .whole n →
      n * Nat.pow 2 stepBits = x.steps := fun h =>
    FiniteDouble.toInt?_eq_some_iff.1 (Key.ofDouble_eq_whole.1 h)
  match p, q, hp, h with
  | .whole m, .whole n, _, h => exact beq_iff_eq.2 (Key.whole.inj h)
  | .whole m, .real (.finite y), _, h => exact beq_iff_eq.2 (hwhole h.symm)
  | .real (.finite x), .whole n, _, h => exact beq_iff_eq.2 (hwhole h)
  | .real (.finite x), .real (.finite y), _, h => exact beq_iff_eq.2 (Key.ofDouble_inj.1 h)
  | .real (.finite x), .real (.infinite t), _, h | .real (.finite x), .real .nan, _, h =>
    cases Key.ofDouble_eq_real h
  | .real (.infinite s), .real (.finite y), _, h => cases Key.ofDouble_eq_real h.symm
  | .real (.infinite s), .real (.infinite t), _, h => cases h; exact beq_self_eq_true s

/-- Only data that stand for numbers make the keys of numbers. -/
theorem quantity_of_key {d : Datum} {q : Quantity} (h : d.key = .ok q.key) :
    ∃ r, d.quantity? = some r ∧ q.key = r.key := by
  have hnumber : (∃ n, q.key = .whole n) ∨ ∃ x, q.key = .real x := by
    cases q with
    | whole n => exact .inl ⟨n, rfl⟩
    | real x => exact (Key.ofDouble_cases x).imp_right fun hx => ⟨x, hx⟩
  cases hd : d.quantity? with
  | some r => exact ⟨r, rfl, Except.ok.inj (h.symm.trans (key_of_quantity hd))⟩
  | none =>
    obtain ⟨n, hn⟩ | ⟨x, hx⟩ := hnumber
    · rw [hn] at h
      cases d <;> simp [key, quantity?] at h hd
    · rw [hx] at h
      cases d <;> simp [key, quantity?] at h hd

/-- Data that make keys are equal only if the keys are. -/
theorem key_eq_of_equal {a b : Datum} {k l : Key} (ha : a.key = .ok k) (hb : b.key = .ok l)
    (h : a.equal b = true) : k = l := by
  cases a with
  | null =>
    cases b with
    | null => exact Except.ok.inj (ha.symm.trans hb)
    | _ => simp [equal, quantity?] at h
  | text s =>
    cases b with
    | text t =>
      rw [equal, beq_iff_eq] at h
      subst h
      exact Except.ok.inj (ha.symm.trans hb)
    | _ => simp [equal, quantity?] at h
  | bool | int | float =>
    obtain ⟨q, hq, hpq⟩ := (equal_of_quantity rfl).1 h
    rw [key_of_quantity hq] at hb
    rw [key_of_quantity rfl] at ha
    rw [← Except.ok.inj ha, ← Except.ok.inj hb, Quantity.key_eq_of_equal hpq]
  | list | record => cases ha

/-- A datum that equals itself equals every other that makes the same key. -/
theorem equal_of_key_eq {a b : Datum} {k : Key} (ha : a.key = .ok k) (hb : b.key = .ok k)
    (hself : a.equal a = true) : a.equal b = true := by
  cases a with
  | null => cases ha; rw [eq_null_of_key hb]; rfl
  | text s => cases ha; rw [eq_text_of_key hb]; exact hself
  | bool | int | float =>
    obtain ⟨q, hq, hpp⟩ := (equal_of_quantity rfl).1 hself
    cases hq
    rw [← Except.ok.inj ((key_of_quantity rfl).symm.trans ha)] at hb
    obtain ⟨r, hr, hkey⟩ := quantity_of_key hb
    exact (equal_of_quantity rfl).2 ⟨r, hr, Quantity.equal_of_key_eq hpp hkey⟩
  | list | record => cases ha

end Datum

/-! ## Identities -/

namespace Identity

/-- An identity that equals itself. Only the undefined double does not. -/
def Selfsame (i : Identity) : Prop := i.datum.equal i.datum = true

/-- Identities that are equal make the same key. -/
theorem key_eq_of_equal {i j : Identity} (h : i.datum.equal j.datum = true) : i.key = j.key :=
  Datum.key_eq_of_equal i.made j.made h

/-- An identity that equals itself equals those that make its key, and no others. -/
theorem Selfsame.equal_iff {i j : Identity} (h : i.Selfsame) :
    i.datum.equal j.datum = true ↔ i.key = j.key :=
  ⟨key_eq_of_equal, fun hkey => Datum.equal_of_key_eq i.made (hkey ▸ j.made) h⟩

/-- Texts equal themselves. -/
theorem selfsame_ofText (s : String) : (ofText s).Selfsame := beq_self_eq_true s

end Identity

end EquationStudio

import Bitcoin.Curve.Point
import Mathlib.Data.List.Prime
import Mathlib.NumberTheory.LucasPrimality

/-!
# The two primes of the curve

The numbers modulo which coordinates and scalars are taken are prime, which takes a proof when a
number has 256 bits.  Lucas's test does it: `p` is prime if some number has the order `p - 1` modulo
`p`, and that is seen from its powers by `p - 1` and by `(p - 1) / q` for the primes `q` of `p - 1`.
Those are proved to be prime in the same way, until they are small.

* `LucasWitness` is what the test needs to know of one number, `Tested` the test of a
  list of them, each one by means of those behind it.
* `prime_of_tested`: **what is tested is prime**.
* `prime_fieldPrime` and `prime_order` apply it to the field and to the group of the curve.

The list of witnesses is the whole input.  The test of a number needs the primes that divide its
predecessor, these stand further back in the list, and so on down to numbers below `2 ^ 16`, for
which it is enough that they have no divisor in common with one factorial.  Since the list is data
and the test is decidable, the kernel runs it, and what has to be believed is one theorem about the
test (`prime_of_tested`) and no computation outside of it.

The powers are taken modulo the number, bit by bit, with a square and perhaps a product for each
bit.  The same loop occurs twice more, for powers in the field and for multiples of a point, and
`stands_of_bits` is its correctness for all three.
-/

set_option autoImplicit false

namespace Bitcoin.Curve

/-! ## Bit by bit -/

/-- The three loops over the bits of a number, for powers modulo a number, powers in the field and
multiples of a point, differ in what they compute and not in how: they read the bits from the top
down, and a step takes what stands for `m` to what stands for `2 * m` or `2 * m + 1`.  From there
what the whole loop computes follows. -/
theorem stands_of_bits {α : Type} (n : Nat) (loop : Nat → α → α) (step : Bool → α → α)
    (Stands : Nat → α → Prop) (hzero : ∀ acc, loop 0 acc = acc)
    (hsucc : ∀ count acc, loop (count + 1) acc = loop count (step (n.testBit count) acc))
    (hstep : ∀ m acc bit, Stands m acc → Stands (2 * m + bit.toNat) (step bit acc))
    (count : Nat) {m : Nat} {acc : α} (h : Stands m acc) :
    Stands (2 ^ count * m + n % 2 ^ count) (loop count acc) := by
  induction count generalizing m acc with
  | zero => simpa [hzero, Nat.mod_one] using h
  | succ count ih =>
    have hbits : 2 ^ (count + 1) * m + n % 2 ^ (count + 1) =
        2 ^ count * (2 * m + (n.testBit count).toNat) + n % 2 ^ count := by
      rw [Nat.mod_pow_succ, ← Nat.toNat_testBit, Nat.pow_succ]
      ring
    rw [hsucc, hbits]
    exact ih (hstep m acc _ h)

/-- The remainder of a power by the low `count` bits of an exponent, from the top bit down: `acc` is
the remainder of the power by the bits already read. -/
def powerModFrom (m base exponent : Nat) : Nat → Nat → Nat
  | 0, acc => acc
  | count + 1, acc =>
    let square := acc * acc % m
    powerModFrom m base exponent count
      (if exponent.testBit count then square * base % m else square)

/-- The remainder of a power. -/
def powerMod (m base exponent : Nat) : Nat :=
  powerModFrom m base exponent (exponent.log2 + 1) 1

theorem cast_powerMod (m base exponent : Nat) :
    (powerMod m base exponent : ZMod m) = (base : ZMod m) ^ exponent := by
  have hone : ((1 : Nat) : ZMod m) = (base : ZMod m) ^ 0 := by rw [pow_zero, Nat.cast_one]
  have hloop := stands_of_bits exponent (powerModFrom m base exponent)
    (fun bit acc => if bit then acc * acc % m * base % m else acc * acc % m)
    (fun k acc => (acc : ZMod m) = (base : ZMod m) ^ k)
    (fun _ => rfl) (fun _ _ => rfl) ?_ (exponent.log2 + 1) hone
  · simpa [powerMod, Nat.mod_eq_of_lt Nat.lt_log2_self] using hloop
  · rintro k acc (_ | _) hacc <;>
      simp only [if_true, if_false, Bool.false_eq_true, ZMod.natCast_mod, Nat.cast_mul, hacc,
        Bool.toNat_true, Bool.toNat_false] <;>
      ring

/-! ## Lucas's test -/

/-- Whether a number below `2 ^ 16` has no divisor in common with the numbers below it, or as many
of them as could hold a divisor. -/
def SmallPrime (n : Nat) : Prop :=
  1 < n ∧ n < 65536 ∧ n.Coprime (min (n - 1) 255).factorial

instance (n : Nat) : Decidable (SmallPrime n) := inferInstanceAs (Decidable (_ ∧ _ ∧ _ = 1))

theorem SmallPrime.prime {n : Nat} (h : SmallPrime n) : n.Prime := by
  obtain ⟨hone, hsmall, hcoprime⟩ := h
  by_contra hn
  have hsquare : n.minFac ^ 2 ≤ n := Nat.minFac_sq_le_self (by omega) hn
  have hlt : n.minFac < n := (Nat.not_prime_iff_minFac_lt hone).1 hn
  have hle : n.minFac < 256 := lt_of_pow_lt_pow_left₀ 2 (Nat.zero_le _) (by omega)
  have hdvd : n.minFac ∣ (min (n - 1) 255).factorial :=
    Nat.dvd_factorial n.minFac_pos (by omega)
  have htrivial : n.minFac = 1 := Nat.eq_one_of_dvd_coprimes hcoprime n.minFac_dvd hdvd
  rw [Nat.minFac_eq_one_iff] at htrivial
  omega

/-- A number, another one that is to have the order `prime - 1` modulo it, and the primes of
`prime - 1` with their exponents. -/
structure LucasWitness where
  prime : Nat
  base : Nat
  factors : List (Nat × Nat)

/-- Lucas's test, by means of primes that are known. -/
def LucasWitness.Passes (known : List Nat) (w : LucasWitness) : Prop :=
  1 < w.prime ∧ (w.factors.map fun f => f.1 ^ f.2).prod = w.prime - 1 ∧
    powerMod w.prime w.base (w.prime - 1) = 1 ∧
      ∀ f ∈ w.factors, (SmallPrime f.1 ∨ f.1 ∈ known) ∧
        powerMod w.prime w.base ((w.prime - 1) / f.1) % w.prime ≠ 1

instance (known : List Nat) (w : LucasWitness) : Decidable (w.Passes known) :=
  inferInstanceAs (Decidable (_ ∧ _ ∧ _ ∧ _))

theorem LucasWitness.Passes.prime {known : List Nat} {w : LucasWitness} (h : w.Passes known)
    (hknown : ∀ q ∈ known, q.Prime) : w.prime.Prime := by
  obtain ⟨hone, hproduct, hpower, hfactors⟩ := h
  refine lucas_primality w.prime (w.base : ZMod w.prime) ?_ fun q hq hdvd hother => ?_
  · rw [← cast_powerMod, hpower, Nat.cast_one]
  rw [← hproduct] at hdvd
  obtain ⟨_, hpower, hqpower⟩ := (Prime.dvd_prod_iff hq.prime).1 hdvd
  obtain ⟨f, hf, rfl⟩ := List.mem_map.1 hpower
  obtain ⟨hprime, hdiffers⟩ := hfactors f hf
  have hfprime : f.1.Prime := hprime.elim SmallPrime.prime (hknown f.1)
  obtain rfl := (Nat.prime_dvd_prime_iff_eq hq hfprime).1 (hq.dvd_of_dvd_pow hqpower)
  rw [← cast_powerMod, ← Nat.cast_one (R := ZMod w.prime),
    ZMod.natCast_eq_natCast_iff', Nat.mod_eq_of_lt hone] at hother
  exact hdiffers hother

/-- A list of numbers of which each one passes the test by means of those behind it. -/
def Tested : List LucasWitness → Prop
  | [] => True
  | w :: ws => w.Passes (ws.map LucasWitness.prime) ∧ Tested ws

instance decidableTested : (ws : List LucasWitness) → Decidable (Tested ws)
  | [] => isTrue trivial
  | _ :: ws => @instDecidableAnd _ _ _ (decidableTested ws)

/-- **What is tested is prime.** -/
theorem prime_of_tested {ws : List LucasWitness} (h : Tested ws) : ∀ w ∈ ws, w.prime.Prime := by
  induction ws with
  | nil => simp
  | cons w ws ih =>
    obtain ⟨hpasses, hothers⟩ := h
    refine List.forall_mem_cons.2 ⟨hpasses.prime fun q hq => ?_, ih hothers⟩
    obtain ⟨v, hv, rfl⟩ := List.mem_map.1 hq
    exact ih hothers v hv

/-! ## The field and the group -/

/-- The prime of the field, and what it needs. -/
def fieldWitnesses : List LucasWitness := [
  ⟨fieldPrime, 3,
    [(2, 1), (3, 1), (7, 1), (13441, 1),
      (205115282021455665897114700593932402728804164701536103180137503955397371, 1)]⟩,
  ⟨205115282021455665897114700593932402728804164701536103180137503955397371, 10,
    [(2, 1), (3, 1), (5, 1), (29, 2), (31, 1), (7723, 1), (132896956044521568488119, 1),
      (255515944373312847190720520512484175977, 1)]⟩,
  ⟨255515944373312847190720520512484175977, 3,
    [(2, 3), (7, 2), (11, 1), (1627, 1), (2657, 1), (4423, 1), (41201, 1), (96557, 1), (7240687, 1),
      (107590001, 1)]⟩,
  ⟨132896956044521568488119, 6, [(2, 1), (3, 1), (22149492674086928081353, 1)]⟩,
  ⟨22149492674086928081353, 5, [(2, 3), (3, 1), (5323, 1), (173378833005251801, 1)]⟩,
  ⟨173378833005251801, 6, [(2, 3), (5, 2), (2621, 1), (24809, 1), (13331831, 1)]⟩,
  ⟨107590001, 3, [(2, 4), (5, 4), (7, 1), (29, 1), (53, 1)]⟩,
  ⟨13331831, 13, [(2, 1), (5, 1), (971, 1), (1373, 1)]⟩,
  ⟨7240687, 3, [(2, 1), (3, 1), (1206781, 1)]⟩,
  ⟨1206781, 10, [(2, 2), (3, 1), (5, 1), (20113, 1)]⟩,
  ⟨96557, 2, [(2, 2), (101, 1), (239, 1)]⟩]

/-- The order of the group, and what it needs. -/
def orderWitnesses : List LucasWitness := [
  ⟨order, 7,
    [(2, 6), (3, 1), (149, 1), (631, 1), (107361793816595537, 1), (174723607534414371449, 1),
      (341948486974166000522343609283189, 1)]⟩,
  ⟨341948486974166000522343609283189, 2,
    [(2, 2), (3, 3), (109, 1), (29047611873442575647497758179, 1)]⟩,
  ⟨29047611873442575647497758179, 2,
    [(2, 1), (293, 1), (305873, 1), (545358713, 1), (297159362677, 1)]⟩,
  ⟨174723607534414371449, 3, [(2, 3), (17, 1), (59, 1), (4051, 1), (120233, 1), (44706919, 1)]⟩,
  ⟨107361793816595537, 3, [(2, 4), (16699, 1), (85831, 1), (4681609, 1)]⟩,
  ⟨297159362677, 2, [(2, 2), (3, 2), (11, 1), (461, 1), (1627771, 1)]⟩,
  ⟨545358713, 5, [(2, 3), (41, 1), (59, 1), (28181, 1)]⟩,
  ⟨44706919, 6, [(2, 1), (3, 1), (797, 1), (9349, 1)]⟩,
  ⟨4681609, 23, [(2, 3), (3, 1), (97, 1), (2011, 1)]⟩,
  ⟨1627771, 3, [(2, 1), (3, 1), (5, 1), (29, 1), (1871, 1)]⟩,
  ⟨305873, 3, [(2, 4), (7, 1), (2731, 1)]⟩,
  ⟨120233, 3, [(2, 3), (7, 1), (19, 1), (113, 1)]⟩,
  ⟨85831, 3, [(2, 1), (3, 1), (5, 1), (2861, 1)]⟩]

theorem tested_fieldWitnesses : Tested fieldWitnesses := by decide +kernel

theorem tested_orderWitnesses : Tested orderWitnesses := by decide +kernel

theorem prime_fieldPrime : fieldPrime.Prime :=
  prime_of_tested tested_fieldWitnesses _ List.mem_cons_self

theorem prime_order : order.Prime := prime_of_tested tested_orderWitnesses _ List.mem_cons_self

instance : Fact fieldPrime.Prime := ⟨prime_fieldPrime⟩

end Bitcoin.Curve

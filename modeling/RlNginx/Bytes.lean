import Mathlib.Data.List.Basic

/-!
# Byte strings

An `ngx_str_t` is a length and a pointer. The strings the module handles come from
nginx's configuration parser, which ends each token with a NUL, so a read past the
length sees that NUL. `ngxStrncmp` is `ngx_strncmp(a, b, n) == 0` on such strings : it
stops at the first difference, after `n` bytes, or at a common NUL.

On strings without a NUL it compares the first `n` bytes (`ngxStrncmp_iff`), which is
what makes `ngx_strncmp(s, "zone=", 5)` a prefix test and the lookup loops compare whole
names.
-/

namespace RlNginx

/-- `ngx_str_t`. -/
abbrev Bytes := List UInt8

/-- The bytes of an ASCII literal of the source. -/
def ascii (s : String) : Bytes :=
  s.toList.map fun c => c.toNat.toUInt8

/-- No byte is NUL. -/
def NulFree (s : Bytes) : Prop :=
  ∀ b ∈ s, b ≠ 0

instance (s : Bytes) : Decidable (NulFree s) :=
  List.decidableBAll (· ≠ 0) s

/-- `ngx_strncmp(a, b, n) == 0` on strings followed by a NUL. -/
def ngxStrncmp : Bytes → Bytes → ℕ → Bool
  | _, _, 0 => true
  | [], [], _ + 1 => true
  | [], b :: _, _ + 1 => b == 0
  | a :: _, [], _ + 1 => a == 0
  | a :: s, b :: t, n + 1 => a == b && (a == 0 || ngxStrncmp s t n)

/-- `ngx_strlchr(s, s + len, c) != NULL`. -/
def ngxStrlchr (s : Bytes) (c : UInt8) : Bool :=
  s.contains c

theorem NulFree.tail {a : UInt8} {s : Bytes} (h : NulFree (a :: s)) : NulFree s :=
  fun b hb => h b (List.mem_cons_of_mem _ hb)

theorem NulFree.drop {s : Bytes} (h : NulFree s) (n : ℕ) : NulFree (s.drop n) :=
  fun b hb => h b (List.mem_of_mem_drop hb)

/-- Without a NUL in either string, `ngx_strncmp` compares the first `n` bytes. -/
theorem ngxStrncmp_iff :
    ∀ {a b : Bytes} {n : ℕ}, NulFree a → NulFree b → (ngxStrncmp a b n = true ↔ a.take n = b.take n)
  | _, _, 0, _, _ => by simp [ngxStrncmp]
  | [], [], n + 1, _, _ => by simp [ngxStrncmp]
  | [], b :: t, n + 1, _, hb => by
    simp [ngxStrncmp, hb b (by simp)]
  | a :: s, [], n + 1, ha, _ => by
    simp [ngxStrncmp, ha a (by simp)]
  | a :: s, b :: t, n + 1, ha, hb => by
    have ih := ngxStrncmp_iff (a := s) (b := t) (n := n) ha.tail hb.tail
    have hne : (a == 0) = false := beq_false_of_ne (ha a (by simp))
    simp only [ngxStrncmp, hne, Bool.false_or, Bool.and_eq_true, beq_iff_eq, ih,
      List.take_succ_cons, List.cons.injEq]

/-- The comparison of the lookup loops :
`x.len == y.len && ngx_strncmp(x.data, y.data, y.len) == 0`. -/
def sameName (x y : Bytes) : Bool :=
  x.length == y.length && ngxStrncmp x y y.length

/-- Names without a NUL are the same exactly when they are equal. -/
theorem sameName_iff {x y : Bytes} (hx : NulFree x) (hy : NulFree y) :
    sameName x y = true ↔ x = y := by
  simp only [sameName, Bool.and_eq_true, beq_iff_eq, ngxStrncmp_iff hx hy]
  constructor
  · rintro ⟨hlen, htake⟩
    rwa [← hlen, List.take_length, hlen, List.take_length] at htake
  · rintro rfl
    exact ⟨rfl, rfl⟩

/-- Against a literal without a NUL, the comparison over its length is a prefix test of any
string. -/
theorem ngxStrncmp_prefix_iff : ∀ {p : Bytes} (s : Bytes), NulFree p →
    (ngxStrncmp s p p.length = true ↔ p <+: s)
  | [], s, _ => by simp [ngxStrncmp]
  | b :: p, [], hp => by
    have hb : (b == 0) = false := beq_false_of_ne (hp b (by simp))
    simp [ngxStrncmp, hb]
  | b :: p, a :: s, hp => by
    have hb : b ≠ 0 := hp b (by simp)
    have ih := ngxStrncmp_prefix_iff s hp.tail
    simp only [ngxStrncmp, List.length_cons, Bool.and_eq_true, beq_iff_eq, Bool.or_eq_true, ih,
      List.cons_prefix_cons]
    constructor
    · rintro ⟨rfl, h | h⟩
      · exact absurd h hb
      · exact ⟨rfl, h⟩
    · rintro ⟨rfl, h⟩
      exact ⟨rfl, .inr h⟩

/-- A comparison of a string with a literal without a NUL is equality. -/
theorem sameName_literal {s p : Bytes} (hp : NulFree p) : sameName s p = true ↔ s = p := by
  unfold sameName
  rw [Bool.and_eq_true, beq_iff_eq, ngxStrncmp_prefix_iff s hp]
  constructor
  · rintro ⟨hlen, hstarts⟩
    exact (hstarts.eq_of_length hlen.symm).symm
  · rintro rfl
    exact ⟨rfl, List.prefix_refl _⟩

@[simp] theorem ngxStrncmp_self : ∀ (s : Bytes) (n : ℕ), ngxStrncmp s s n = true
  | _, 0 => by simp [ngxStrncmp]
  | [], n + 1 => rfl
  | a :: s, n + 1 => by simp [ngxStrncmp, ngxStrncmp_self s n]

@[simp] theorem sameName_self (x : Bytes) : sameName x x = true := by
  simp [sameName]

end RlNginx

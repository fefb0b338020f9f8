import Mathlib.Algebra.Group.Nat.Defs
import Mathlib.Data.List.Basic
import Mathlib.Data.Nat.Bitwise
import Mathlib.Tactic.Ring

/-!
Numbers and sums over lists of bytes.
Numbers are written in network byte order, the most significant byte first.
Sums are the ones'-complement sums of the Internet protocols: bytes are paired
to 16-bit words, and a carry out of a word is added back at its low end.
-/
namespace Sponge.Octets

/-- The n low bytes of v, the most significant one first. -/
def bigEndian : ℕ → ℕ → List UInt8
  | 0, _ => []
  | n + 1, v => UInt8.ofNat (v / 256 ^ n) :: bigEndian n v

def ofBigEndian (bs : List UInt8) : ℕ :=
  bs.foldl (fun v b => 256 * v + b.toNat) 0

@[simp] theorem bigEndian_length (n v : ℕ) : (bigEndian n v).length = n := by
  induction n with
  | zero => rfl
  | succ n ih => simp [bigEndian, ih]

theorem foldl_bigEndian (n v a : ℕ) :
    (bigEndian n v).foldl (fun v b => 256 * v + b.toNat) a = 256 ^ n * a + v % 256 ^ n := by
  induction n generalizing a with
  | zero => simp [bigEndian, Nat.mod_one]
  | succ n ih =>
    have hhead : (UInt8.ofNat (v / 256 ^ n)).toNat = v / 256 ^ n % 256 := UInt8.toNat_ofNat'
    have hsplit : v % (256 ^ n * 256) = v % 256 ^ n + 256 ^ n * (v / 256 ^ n % 256) :=
      Nat.mod_mul
    rw [bigEndian, List.foldl_cons, ih, hhead, pow_succ, hsplit]
    ring

theorem ofBigEndian_bigEndian {n v : ℕ} (h : v < 256 ^ n) :
    ofBigEndian (bigEndian n v) = v := by
  rw [ofBigEndian, foldl_bigEndian, Nat.mod_eq_of_lt h]
  simp

theorem foldl_octets (bs : List UInt8) (a : ℕ) :
    bs.foldl (fun v b => 256 * v + b.toNat) a = 256 ^ bs.length * a + ofBigEndian bs := by
  induction bs generalizing a with
  | nil => simp [ofBigEndian]
  | cons b bs ih =>
    rw [ofBigEndian, List.foldl_cons, List.foldl_cons, ih, ih, List.length_cons, pow_succ]
    ring

theorem ofBigEndian_cons (b : UInt8) (bs : List UInt8) :
    ofBigEndian (b :: bs) = 256 ^ bs.length * b.toNat + ofBigEndian bs := by
  rw [ofBigEndian, List.foldl_cons, foldl_octets, Nat.mul_zero, Nat.zero_add]

theorem ofBigEndian_lt (bs : List UInt8) : ofBigEndian bs < 256 ^ bs.length := by
  induction bs with
  | nil => simp [ofBigEndian]
  | cons b bs ih =>
    have hb : b.toNat + 1 ≤ 256 := b.toNat_lt
    calc ofBigEndian (b :: bs) = 256 ^ bs.length * b.toNat + ofBigEndian bs :=
          ofBigEndian_cons b bs
      _ < 256 ^ bs.length * b.toNat + 256 ^ bs.length := Nat.add_lt_add_left ih _
      _ = 256 ^ bs.length * (b.toNat + 1) := by ring
      _ ≤ 256 ^ bs.length * 256 := Nat.mul_le_mul_left _ hb

/-- What lies above the n low bytes is not written. -/
theorem bigEndian_add_mul (n a v : ℕ) : bigEndian n (v + 256 ^ n * a) = bigEndian n v := by
  induction n generalizing a with
  | zero => rfl
  | succ n ih =>
    have hpos : 0 < 256 ^ n := Nat.pow_pos (by decide)
    have hshift : v + 256 ^ (n + 1) * a = v + 256 ^ n * (256 * a) := by ring
    have hhead : (v + 256 ^ n * (256 * a)) / 256 ^ n = v / 256 ^ n + 256 * a :=
      Nat.add_mul_div_left v (256 * a) hpos
    have hbyte : UInt8.ofNat (v / 256 ^ n + 256 * a) = UInt8.ofNat (v / 256 ^ n) := by
      apply UInt8.toNat_inj.mp
      simp
    rw [bigEndian, bigEndian, hshift, hhead, hbyte, ih]

/-- Every list of bytes is what is written for its number. -/
theorem bigEndian_ofBigEndian (bs : List UInt8) : bigEndian bs.length (ofBigEndian bs) = bs := by
  induction bs with
  | nil => rfl
  | cons b bs ih =>
    have hlt := ofBigEndian_lt bs
    have hhead : (ofBigEndian bs + 256 ^ bs.length * b.toNat) / 256 ^ bs.length = b.toNat := by
      rw [Nat.add_mul_div_left _ _ (Nat.pow_pos (by decide)), Nat.div_eq_of_lt hlt, Nat.zero_add]
    rw [List.length_cons, ofBigEndian_cons, Nat.add_comm (256 ^ bs.length * b.toNat), bigEndian,
      hhead, bigEndian_add_mul, ih, UInt8.ofNat_toNat]

/-- The sum of the 16-bit words of a list of bytes. With `odd` set, the first byte
is the low one of its word. -/
def wordSum : Bool → List UInt8 → ℕ
  | _, [] => 0
  | odd, b :: bs => (if odd then b.toNat else 256 * b.toNat) + wordSum (!odd) bs

theorem wordSum_append (odd : Bool) (xs ys : List UInt8) :
    wordSum odd (xs ++ ys) =
      wordSum odd xs + wordSum (odd ^^ decide (xs.length % 2 = 1)) ys := by
  induction xs generalizing odd with
  | nil => simp [wordSum]
  | cons x xs ih =>
    have hparity : ((!odd) ^^ decide (xs.length % 2 = 1)) =
        (odd ^^ decide ((xs.length + 1) % 2 = 1)) := by
      rcases Nat.mod_two_eq_zero_or_one xs.length with h | h <;>
        cases odd <;> simp [h, Nat.add_mod]
    rw [List.cons_append, wordSum, wordSum, ih, hparity, List.length_cons, Nat.add_assoc]

/-- Words begin anew behind an even number of bytes. -/
theorem wordSum_append_even {xs : List UInt8} (h : xs.length % 2 = 0) (ys : List UInt8) :
    wordSum false (xs ++ ys) = wordSum false xs + wordSum false ys := by
  rw [wordSum_append]
  simp [h]

theorem wordSum_le (odd : Bool) (bs : List UInt8) : wordSum odd bs ≤ 65280 * bs.length := by
  induction bs generalizing odd with
  | nil => simp [wordSum]
  | cons b bs ih =>
    have hb := b.toNat_lt
    have hrest := ih (!odd)
    rw [wordSum, List.length_cons]
    split <;> omega

theorem wordSum_word {c : ℕ} (h : c < 65536) : wordSum false (bigEndian 2 c) = c := by
  have hhigh : c / 256 % 256 = c / 256 := Nat.mod_eq_of_lt (by omega)
  simp [bigEndian, wordSum, hhigh]
  omega

/-- A 16-bit word behind an even number of bytes counts with its value. -/
theorem wordSum_field {pre : List UInt8} (hpre : pre.length % 2 = 0) {c : ℕ} (hc : c < 65536)
    (post : List UInt8) :
    wordSum false (pre ++ (bigEndian 2 c ++ post)) =
      wordSum false (pre ++ (bigEndian 2 0 ++ post)) + c := by
  rw [wordSum_append_even hpre, wordSum_append_even hpre,
    wordSum_append_even (by simp), wordSum_append_even (by simp), wordSum_word hc,
    wordSum_word (by omega)]
  omega

/-- Adds the carries above 16 bits back until none is left. -/
def foldCarries (n : ℕ) : ℕ :=
  if 65535 < n then foldCarries (n / 65536 + n % 65536) else n
termination_by n
decreasing_by omega

theorem foldCarries_le (n : ℕ) : foldCarries n ≤ 65535 := by
  fun_induction foldCarries n with
  | case1 n h ih => exact ih
  | case2 n h => omega

theorem foldCarries_mod (n : ℕ) : foldCarries n % 65535 = n % 65535 := by
  fun_induction foldCarries n with
  | case1 n h ih => omega
  | case2 n h => rfl

theorem foldCarries_pos {n : ℕ} (hn : 0 < n) : 0 < foldCarries n := by
  fun_induction foldCarries n with
  | case1 n h ih => exact ih (by omega)
  | case2 n h => exact hn

theorem foldCarries_eq_zero_iff {n : ℕ} : foldCarries n = 0 ↔ n = 0 := by
  constructor
  · intro hnone
    by_contra hn
    have hpos := foldCarries_pos (Nat.pos_of_ne_zero hn)
    omega
  · rintro rfl
    unfold foldCarries
    simp

/-- A number within a word that agrees with the sum modulo all ones, and vanishes just where
the sum does, is the folded sum. -/
theorem foldCarries_unique {n v : ℕ} (hle : v ≤ 65535) (hmod : v % 65535 = n % 65535)
    (hzero : v = 0 ↔ n = 0) : foldCarries n = v := by
  have hfold := foldCarries_le n
  have hfoldmod := foldCarries_mod n
  have hfoldzero := foldCarries_eq_zero_iff (n := n)
  omega

/-- The carries of a part may be added back before the rest comes. -/
theorem foldCarries_add (m n : ℕ) : foldCarries (foldCarries m + n) = foldCarries (m + n) := by
  have hpart := foldCarries_mod m
  have hwhole := foldCarries_mod (m + n)
  have hpartzero := foldCarries_eq_zero_iff (n := m)
  have hwholezero := foldCarries_eq_zero_iff (n := m + n)
  exact foldCarries_unique (foldCarries_le _) (by omega) (by omega)

/-- A sum to which the complement of its own folded value is added folds to all ones. -/
theorem foldCarries_complement (n : ℕ) : foldCarries (n + (65535 - foldCarries n)) = 65535 := by
  have hle := foldCarries_le n
  have hmod := foldCarries_mod n
  have hzero := foldCarries_eq_zero_iff (n := n)
  exact foldCarries_unique (Nat.le_refl _) (by omega) (by omega)

/-- The complement fills a 32-bit sum up to all ones at most: near the end of the range the
folded value is the low word. -/
theorem add_complement_lt {n : ℕ} (h : n < 2 ^ 32) : n + (65535 - foldCarries n) < 2 ^ 32 := by
  have hle := foldCarries_le n
  have hmod := foldCarries_mod n
  rcases Nat.eq_zero_or_pos n with hzero | hpos
  · omega
  · have hfold := foldCarries_pos hpos
    omega

/-- The 16-bit words of a list of bytes, the last one filled up with a zero byte. -/
def words : List UInt8 → List ℕ
  | [] => []
  | [b] => [ofBigEndian [b, 0]]
  | a :: b :: bs => ofBigEndian [a, b] :: words bs

/-- Addition of two 16-bit words with end-around carry. -/
def addEndAround (a b : ℕ) : ℕ := (a + b) % 65536 + (a + b) / 65536

/-- The ones'-complement sum of the words and of the two words of the start. -/
def onesSum (start : ℕ) (ws : List ℕ) : ℕ :=
  ws.foldl addEndAround (addEndAround (start / 65536) (start % 65536))

theorem ofBigEndian_pair_lt (a b : UInt8) : ofBigEndian [a, b] < 65536 := by
  have hlt := ofBigEndian_lt [a, b]
  norm_num at hlt
  exact hlt

theorem words_lt (bs : List UInt8) : ∀ w ∈ words bs, w < 65536 := by
  fun_induction words bs with
  | case1 => simp
  | case2 b =>
    intro w hw
    rw [List.mem_singleton.mp hw]
    exact ofBigEndian_pair_lt b 0
  | case3 a b bs ih => exact List.forall_mem_cons.mpr ⟨ofBigEndian_pair_lt a b, ih⟩

theorem wordSum_eq_sum_words (bs : List UInt8) : wordSum false bs = (words bs).sum := by
  fun_induction words bs with
  | case1 => rfl
  | case2 b => simp [wordSum, ofBigEndian]
  | case3 a b bs ih =>
    simp only [wordSum, Bool.false_eq_true, if_false, Bool.not_false, if_true, Bool.not_true, ih,
      List.sum_cons, ofBigEndian, List.foldl_cons, List.foldl_nil, Nat.mul_zero, Nat.zero_add]
    omega

theorem addEndAround_eq {a b : ℕ} (ha : a < 65536) (hb : b < 65536) :
    addEndAround a b = foldCarries (a + b) := by
  unfold addEndAround
  exact (foldCarries_unique (by omega) (by omega) (by omega)).symm

/-- Adding word by word with end-around carry comes to folding the plain sum once. -/
theorem onesSum_eq {start : ℕ} (hstart : start < 2 ^ 32) {ws : List ℕ}
    (hws : ∀ w ∈ ws, w < 65536) : onesSum start ws = foldCarries (start + ws.sum) := by
  have hrun : ∀ a < 65536, ws.foldl addEndAround a = foldCarries (a + ws.sum) := by
    clear hstart
    induction ws with
    | nil =>
      intro a ha
      exact (foldCarries_unique (Nat.le_of_lt_succ ha) rfl Iff.rfl).symm
    | cons w ws ih =>
      intro a ha
      obtain ⟨hw, hrest⟩ := List.forall_mem_cons.mp hws
      have hfold := foldCarries_le (a + w)
      rw [List.foldl_cons, addEndAround_eq ha hw, ih hrest _ (by omega), foldCarries_add,
        List.sum_cons, Nat.add_assoc]
  have hhalves : addEndAround (start / 65536) (start % 65536) = foldCarries start := by
    rw [addEndAround_eq (by omega) (by omega)]
    have hmod := foldCarries_mod start
    have hzero := foldCarries_eq_zero_iff (n := start)
    exact foldCarries_unique (foldCarries_le _) (by omega) (by omega)
  have hle := foldCarries_le start
  rw [onesSum, hhalves, hrun _ (by omega), foldCarries_add]

/-- The bytes with bit i flipped; bit 0 is the lowest one of the first byte. -/
def flipBit (i : ℕ) (bs : List UInt8) : List UInt8 :=
  bs.modify (i / 8) (fun b => b ^^^ (1 <<< UInt8.ofNat (i % 8)))

@[simp] theorem flipBit_length (i : ℕ) (bs : List UInt8) : (flipBit i bs).length = bs.length :=
  List.length_modify _ _ _

/-- Flipping bit k adds or takes away its weight. -/
theorem xor_two_pow (n k : ℕ) : n ^^^ 2 ^ k = n + 2 ^ k ∨ (n ^^^ 2 ^ k) + 2 ^ k = n := by
  induction k generalizing n with
  | zero =>
    have hhalf : (n ^^^ 1) / 2 = n / 2 := by simp [Nat.xor_div_two]
    have hparity : (n ^^^ 1) % 2 = (n + 1) % 2 := Nat.xor_mod_two_eq
    rw [pow_zero]
    omega
  | succ k ih =>
    have htwo : 2 ^ (k + 1) / 2 = 2 ^ k := by omega
    have hhalf : (n ^^^ 2 ^ (k + 1)) / 2 = n / 2 ^^^ 2 ^ k := by
      rw [Nat.xor_div_two, htwo]
    have hparity : (n ^^^ 2 ^ (k + 1)) % 2 = (n + 2 ^ (k + 1)) % 2 := Nat.xor_mod_two_eq
    rcases ih (n / 2) with h | h <;> omega

theorem flip_toNat (b : UInt8) {k : ℕ} (hk : k < 8) :
    (b ^^^ (1 <<< UInt8.ofNat k)).toNat = b.toNat ^^^ 2 ^ k := by
  have hmask : ∀ k < 8, ((1 : UInt8) <<< UInt8.ofNat k).toNat = 2 ^ k := by decide
  rw [UInt8.toNat_xor, hmask k hk]

/-- Flipping one bit changes the sum of the words by a power of two within a word. -/
theorem wordSum_flipBit (odd : Bool) {i : ℕ} {bs : List UInt8} (hi : i < 8 * bs.length) :
    ∃ j < 16, wordSum odd (flipBit i bs) = wordSum odd bs + 2 ^ j ∨
      wordSum odd (flipBit i bs) + 2 ^ j = wordSum odd bs := by
  induction bs generalizing i odd with
  | nil => simp at hi
  | cons b bs ih =>
    by_cases hfirst : i < 8
    · have hflip : flipBit i (b :: bs) = (b ^^^ (1 <<< UInt8.ofNat i)) :: bs := by
        rw [flipBit, Nat.div_eq_of_lt hfirst, Nat.mod_eq_of_lt hfirst, List.modify_zero_cons]
      have hbyte := xor_two_pow b.toNat i
      rw [hflip, wordSum, wordSum, flip_toNat b hfirst]
      cases odd with
      | true =>
        refine ⟨i, by omega, ?_⟩
        simp only [if_true]
        omega
      | false =>
        have hweight : 2 ^ (8 + i) = 256 * 2 ^ i := pow_add 2 8 i
        refine ⟨8 + i, by omega, ?_⟩
        simp only [Bool.false_eq_true, if_false]
        omega
    · have hflip : flipBit i (b :: bs) = b :: flipBit (i - 8) bs := by
        have hdiv : i / 8 = (i - 8) / 8 + 1 := by omega
        have hmod : i % 8 = (i - 8) % 8 := by omega
        rw [flipBit, hdiv, hmod, List.modify_succ_cons, flipBit]
      rw [List.length_cons] at hi
      obtain ⟨j, hj, hrest⟩ := ih (!odd) (i := i - 8) (by omega)
      refine ⟨j, hj, ?_⟩
      rw [hflip, wordSum, wordSum]
      omega

/-- No two sums of all ones are a power of two within a word apart. -/
theorem foldCarries_ne_of_two_pow {m n j : ℕ} (hj : j < 16)
    (happart : m = n + 2 ^ j ∨ m + 2 ^ j = n) (hn : foldCarries n = 65535) :
    foldCarries m ≠ 65535 := by
  intro hm
  have hmodm := foldCarries_mod m
  have hmodn := foldCarries_mod n
  have hpos : 0 < 2 ^ j := Nat.two_pow_pos j
  have hlt : 2 ^ j < 2 ^ 16 := Nat.pow_lt_pow_right (by decide) hj
  have hpower : 2 ^ j ≠ 65535 := by
    cases j with
    | zero => decide
    | succ k =>
      rw [pow_succ]
      omega
  omega

end Sponge.Octets

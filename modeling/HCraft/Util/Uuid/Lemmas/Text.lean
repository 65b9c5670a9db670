import HCraft.Util.Uuid.Impl
import Mathlib.Data.List.GetD
import Mathlib.Data.List.OfFn

/-!
This module contains the texts of UUIDs, with and without dashes.
-/

namespace HCraft

namespace Uuid

def digitPair (b : UInt8) : Bytes :=
  [hex.getD (b >>> 4).toNat 0, hex.getD (b &&& 15).toNat 0]

/--
8, 4, 4, 4 and 12 digits with dashes between them
-/
def dashed (ds : Bytes) : Bytes :=
  ds.take 8 ++ 45 :: ((ds.drop 8).take 4 ++ 45 :: ((ds.drop 12).take 4
    ++ 45 :: ((ds.drop 16).take 4 ++ 45 :: (ds.drop 20).take 12)))

def IsHex (c : UInt8) : Prop :=
  (48 ≤ c ∧ c ≤ 57) ∨ (97 ≤ c ∧ c ≤ 102) ∨ (65 ≤ c ∧ c ≤ 70)

instance : DecidablePred IsHex := fun _ => inferInstanceAs (Decidable (_ ∨ _ ∨ _))

def lower (c : UInt8) : UInt8 :=
  if 65 ≤ c ∧ c ≤ 90 then c + 32 else c

section Digit

theorem hexToDec_digit {c : UInt8} (h : IsHex c)
    : hexToDec c < 16 ∧ hex.getD (hexToDec c).toNat 0 = lower c := by
  have hall : ∀ n : Fin 256, IsHex (UInt8.ofNat n) → hexToDec (UInt8.ofNat n) < 16
      ∧ hex.getD (hexToDec (UInt8.ofNat n)).toNat 0 = lower (UInt8.ofNat n) := by
    decide +kernel
  have hc := hall ⟨c.toNat, c.toNat_lt⟩
  rw [UInt8.ofNat_toNat] at hc
  exact hc h

theorem digitPair_or {hi lo : UInt8} (hhi : hi < 16) (hlo : lo < 16)
    : digitPair (hi <<< 4 ||| lo) = [hex.getD hi.toNat 0, hex.getD lo.toNat 0] := by
  have hall : ∀ m n : Fin 16, (UInt8.ofNat m <<< 4 ||| UInt8.ofNat n) >>> 4 = UInt8.ofNat m
      ∧ (UInt8.ofNat m <<< 4 ||| UInt8.ofNat n) &&& 15 = UInt8.ofNat n := by
    decide +kernel
  have h := hall ⟨hi.toNat, hhi⟩ ⟨lo.toNat, hlo⟩
  rw [UInt8.ofNat_toNat, UInt8.ofNat_toNat] at h
  rw [digitPair, h.1, h.2]

theorem hex_digit {d : UInt8} (h : d < 16)
    : IsHex (hex.getD d.toNat 0) ∧ hex.getD d.toNat 0 ≠ 45 ∧ hexToDec (hex.getD d.toNat 0) = d := by
  have hall : ∀ n : Fin 16, IsHex (hex.getD n.val 0) ∧ hex.getD n.val 0 ≠ 45
      ∧ hexToDec (hex.getD n.val 0) = UInt8.ofNat n := by
    decide +kernel
  have hd := hall ⟨d.toNat, h⟩
  rwa [UInt8.ofNat_toNat] at hd

theorem halves_or (b : UInt8) : b >>> 4 < 16 ∧ b &&& 15 < 16 ∧ b >>> 4 <<< 4 ||| (b &&& 15) = b := by
  have hall : ∀ n : Fin 256, UInt8.ofNat n >>> 4 < 16 ∧ UInt8.ofNat n &&& 15 < 16
      ∧ UInt8.ofNat n >>> 4 <<< 4 ||| (UInt8.ofNat n &&& 15) = UInt8.ofNat n := by
    decide +kernel
  have hb := hall ⟨b.toNat, b.toNat_lt⟩
  rwa [UInt8.ofNat_toNat] at hb

-- The digits are looked at one half of the byte at a time: a check of all bytes at once goes
-- through every pair of a byte and a digit.
theorem digitPair_spec (b : UInt8)
    : (∀ c ∈ digitPair b, IsHex c ∧ c ≠ 45)
        ∧ hexToDec ((digitPair b).getD 0 0) <<< 4 ||| hexToDec ((digitPair b).getD 1 0) = b := by
  obtain ⟨hhi, hlo, hor⟩ := halves_or b
  obtain ⟨hihex, hidash, hidec⟩ := hex_digit hhi
  obtain ⟨lohex, lodash, lodec⟩ := hex_digit hlo
  constructor
  . intro c hc
    rw [digitPair, List.mem_cons, List.mem_singleton] at hc
    cases hc with
    | inl hc =>
      rw [hc]
      exact ⟨hihex, hidash⟩
    | inr hc =>
      rw [hc]
      exact ⟨lohex, lodash⟩
  . simp only [digitPair, List.getD_cons_zero, List.getD_cons_succ, hidec, lodec, hor]

end Digit

section Text

theorem length_flatMap_digitPair (bs : Bytes) : (bs.flatMap digitPair).length = bs.length * 2 := by
  induction bs with
  | nil => rfl
  | cons b bs ih =>
    rw [List.flatMap_cons, List.length_append, ih, List.length_cons, Nat.add_mul, Nat.add_comm]
    rfl

theorem getD_flatMap_digitPair (bs : Bytes) (i j : Nat) (hj : j < 2)
    : (bs.flatMap digitPair).getD (i * 2 + j) 0 = (digitPair (bs.getD i 0)).getD j 0
        ∨ bs.length ≤ i := by
  induction bs generalizing i with
  | nil => exact .inr (Nat.zero_le i)
  | cons b bs ih =>
    cases i with
    | zero =>
      left
      have hlen : j < (digitPair b).length := hj
      rw [List.flatMap_cons, Nat.zero_mul, Nat.zero_add, List.getD_append _ _ _ _ hlen]
      rfl
    | succ i =>
      rw [List.flatMap_cons, List.getD_append_right _ _ _ _ (by
        show 2 ≤ (i + 1) * 2 + j
        omega), List.getD_cons_succ, List.length_cons]
      have hpos : (i + 1) * 2 + j - (digitPair b).length = i * 2 + j := by
        show (i + 1) * 2 + j - 2 = i * 2 + j
        omega
      rw [hpos]
      cases ih i with
      | inl ih => exact .inl ih
      | inr ih => exact .inr (by omega)

/--
The bytes that pairs of digits stand for have these digits, in lower case.
-/
theorem flatMap_digitPair_ofFn {n : Nat} {ds : Bytes} (hlen : ds.length = n * 2)
    (hhex : ∀ c ∈ ds, IsHex c)
    : (List.ofFn (fun i : Fin n =>
          hexToDec (ds.getD (i * 2 + 0) 0) <<< 4 ||| hexToDec (ds.getD (i * 2 + 1) 0))).flatMap
            digitPair
        =
      ds.map lower := by
  induction n generalizing ds with
  | zero =>
    have hnil := List.eq_nil_of_length_eq_zero hlen
    rw [hnil]
    rfl
  | succ n ih =>
    cases ds with
    | nil => simp at hlen
    | cons hi ds =>
      cases ds with
      | nil =>
        simp only [List.length_cons, List.length_nil] at hlen
        omega
      | cons lo ds =>
        have hhi := hexToDec_digit (hhex hi List.mem_cons_self)
        have hlo := hexToDec_digit (hhex lo (List.mem_cons_of_mem _ List.mem_cons_self))
        have hrest := ih (by simpa [Nat.add_mul] using hlen)
          (fun c hc => hhex c (List.mem_cons_of_mem _ (List.mem_cons_of_mem _ hc)))
        have htail : (fun i : Fin n =>
            hexToDec ((hi :: lo :: ds).getD (i.succ * 2 + 0) 0) <<< 4
              ||| hexToDec ((hi :: lo :: ds).getD (i.succ * 2 + 1) 0))
            = fun i : Fin n =>
              hexToDec (ds.getD (i * 2 + 0) 0) <<< 4 ||| hexToDec (ds.getD (i * 2 + 1) 0) := by
          funext i
          rw [Fin.val_succ, Nat.add_mul, Nat.one_mul]
          rfl
        rw [List.ofFn_succ, List.flatMap_cons, htail, hrest, List.map_cons, List.map_cons]
        show digitPair (hexToDec hi <<< 4 ||| hexToDec lo) ++ _ = _
        rw [digitPair_or hhi.1 hlo.1, hhi.2, hlo.2]
        rfl

theorem str_eq (uuid : Uuid) : uuid.str = dashed ((List.ofFn uuid.parts).flatMap digitPair) := by
  rfl

theorem filter_dashed {ds : Bytes} (hlen : ds.length = 32) (hdash : ∀ c ∈ ds, c ≠ 45)
    : (dashed ds).filter (· ≠ 45) = ds := by
  have hkeep : ∀ m n, ((ds.drop m).take n).filter (· ≠ 45) = (ds.drop m).take n := by
    intro m n
    rw [List.filter_eq_self]
    intro c hc
    exact decide_eq_true (hdash c (List.mem_of_mem_drop (List.mem_of_mem_take hc)))
  have hfirst := hkeep 0 8
  rw [List.drop_zero] at hfirst
  have hdrop : ∀ {bs : Bytes}, (45 :: bs).filter (· ≠ 45) = bs.filter (· ≠ 45) :=
    List.filter_cons_of_neg (by decide)
  have hlast : (ds.drop 20).take 12 = ds.drop 20 := List.take_of_length_le (by simp [hlen])
  simp only [dashed, List.filter_append, hdrop, hfirst, hkeep]
  rw [hlast]
  have hsplit : ∀ m n, (ds.drop m).take n ++ ds.drop (m + n) = ds.drop m := by
    intro m n
    rw [← List.drop_drop, List.take_append_drop]
  rw [hsplit 16 4, hsplit 12 4, hsplit 8 4, List.take_append_drop]

theorem length_dashed {ds : Bytes} (hlen : ds.length = 32) : (dashed ds).length = 36 := by
  simp [dashed, hlen]

end Text

section Parse

theorem parseHex_of_length {text : Bytes} (hlen : text.length = 32)
    : parseHex text
        =
      .ok ⟨fun i => hexToDec (text.getD (i * 2 + 0) 0) <<< 4
        ||| hexToDec (text.getD (i * 2 + 1) 0)⟩ := by
  rw [parseHex, if_neg (by omega)]

theorem str_of_parseHex {text : Bytes} (hlen : text.length = 32) (hhex : ∀ c ∈ text, IsHex c)
    {uuid : Uuid} (h : parseHex text = .ok uuid) : uuid.str = dashed (text.map lower) := by
  rw [parseHex_of_length hlen] at h
  injection h with h
  rw [← h, str_eq, flatMap_digitPair_ofFn hlen hhex]

theorem parseHex_digits (uuid : Uuid)
    : parseHex ((List.ofFn uuid.parts).flatMap digitPair) = .ok uuid := by
  rw [parseHex_of_length (by rw [length_flatMap_digitPair, List.length_ofFn])]
  have hdigit : ∀ (i : Fin 16) (j : Nat), j < 2 →
      ((List.ofFn uuid.parts).flatMap digitPair).getD (i * 2 + j) 0
        = (digitPair (uuid.parts i)).getD j 0 := by
    intro i j hj
    cases getD_flatMap_digitPair (List.ofFn uuid.parts) i j hj with
    | inl h =>
      have hget : (List.ofFn uuid.parts).getD i 0 = uuid.parts i := by
        rw [List.getD_eq_getElem?_getD, List.getElem?_ofFn, dif_pos i.isLt, Option.getD_some]
      rw [h, hget]
    | inr h =>
      rw [List.length_ofFn] at h
      omega
  congr 2
  funext i
  rw [hdigit i 0 (by omega), hdigit i 1 (by omega)]
  exact (digitPair_spec _).2

theorem parseHex_str (uuid : Uuid) : parseHex (uuid.str.filter (· ≠ 45)) = .ok uuid := by
  rw [str_eq, filter_dashed]
  . exact parseHex_digits uuid
  . rw [length_flatMap_digitPair, List.length_ofFn]
  . intro c hc
    obtain ⟨b, _, hb⟩ := List.mem_flatMap.mp hc
    exact ((digitPair_spec b).1 c hb).2

theorem str_inj {uuid uuid' : Uuid} (h : uuid.str = uuid'.str) : uuid = uuid' := by
  have hparse := parseHex_str uuid
  rw [h, parseHex_str] at hparse
  injection hparse with hparse
  exact hparse.symm

end Parse

/--
The text of a UUID has 36 characters, and without its dashes is read as this UUID. What is read from 32
digits in either case has these digits as its text.
-/
theorem text_spec (uuid : Uuid)
    : uuid.str.length = 36
        ∧ parseHex (uuid.str.filter (· ≠ 45)) = .ok uuid
        ∧ ∀ text : Bytes, text.length = 32 → (∀ c ∈ text, IsHex c) →
            (parseHex text = .ok uuid ↔ uuid.str = dashed (text.map lower)) := by
  refine ⟨?_, parseHex_str uuid, ?_⟩
  . rw [str_eq]
    exact length_dashed (by rw [length_flatMap_digitPair, List.length_ofFn])
  . intro text hlen hhex
    constructor
    . exact str_of_parseHex hlen hhex
    . intro h
      have hparse := parseHex_of_length hlen
      rw [hparse, str_inj (h.trans (str_of_parseHex hlen hhex hparse).symm)]

/--
A UUID that looks like a version has this version's digit and a `b` in its text, the other digits are
those it was made from.
-/
theorem str_looksLike {version : UInt8} (hversion : version < 16) (parts : Fin 16 → UInt8)
    : (looksLike version parts).str
        =
      ((Uuid.mk parts).str.set 14 (hex.getD version.toNat 0)).set 19 98 := by
  have hlow : ∀ b : UInt8, b &&& 15 < 16 := by
    intro b
    have hall : ∀ n : Fin 256, UInt8.ofNat n &&& 15 < 16 := by decide +kernel
    have hb := hall ⟨b.toNat, b.toNat_lt⟩
    rwa [UInt8.ofNat_toNat] at hb
  have hsix := digitPair_or hversion (hlow (parts 6))
  have height := digitPair_or (show (11 : UInt8) < 16 by decide) (hlow (parts 8))
  have hnew : List.ofFn (looksLike version parts).parts
      = [parts 0, parts 1, parts 2, parts 3, parts 4, parts 5, version <<< 4 ||| (parts 6 &&& 15),
        parts 7, (11 : UInt8) <<< 4 ||| (parts 8 &&& 15), parts 9, parts 10, parts 11, parts 12, parts 13,
        parts 14, parts 15] := rfl
  have hold : List.ofFn parts
      = [parts 0, parts 1, parts 2, parts 3, parts 4, parts 5, parts 6, parts 7, parts 8, parts 9,
        parts 10, parts 11, parts 12, parts 13, parts 14, parts 15] := rfl
  rw [str_eq, str_eq, hnew, hold]
  simp only [List.flatMap_cons, List.flatMap_nil, hsix, height]
  simp only [digitPair]
  rfl

/--
UUIDs of the versions 4 and 3, the first of which are made of random numbers, the others of a text.
-/
theorem str_generate (rnd : Fin 16 → UInt8) (md5 : Bytes → Fin 16 → UInt8) (str : Bytes)
    : (generateV4 rnd).str = ((Uuid.mk rnd).str.set 14 52).set 19 98
        ∧ (generateV3 md5 str).str = ((Uuid.mk (md5 str)).str.set 14 51).set 19 98 :=
  ⟨str_looksLike (by decide) rnd, str_looksLike (by decide) (md5 str)⟩

end Uuid

end HCraft

/-
Module: Intake.Proofs.Text.Utf8
Purpose: Decoding and encoding are inverse to each other.
Main exports: Utf8.decodeFrom_encodeChar, Utf8.encode_of_decodeFrom, Utf8.decode_eq_ok_iff,
  Utf8.exists_encode_eq_of_split, Bytes.text?_eq_some_iff

A sequence of one to four bytes is decoded exactly if it is the encoding of a character; the four
lengths are treated one after the other, in numbers.
-/
import Intake.Text.Utf8

namespace Intake

namespace Utf8

/-! ### Bytes as numbers

Bytes are compared as numbers from here on. -/

theorem isContinuation_iff (b : UInt8) :
    isContinuation b = true ↔ 0x80 ≤ b.toNat ∧ b.toNat ≤ 0xBF := by
  rw [isContinuation, Bool.and_eq_true, decide_eq_true_iff, decide_eq_true_iff,
    UInt8.le_iff_toNat_le, UInt8.le_iff_toNat_le]
  rfl

theorem isBetween_iff (low high a : UInt8) :
    (decide (low ≤ a) && decide (a ≤ high)) = true ↔
      low.toNat ≤ a.toNat ∧ a.toNat ≤ high.toNat := by
  rw [Bool.and_eq_true, decide_eq_true_iff, decide_eq_true_iff, UInt8.le_iff_toNat_le,
    UInt8.le_iff_toNat_le]

/-- The second of three bytes, in numbers. -/
theorem isSecondOfThree_iff (a b : UInt8) :
    isSecondOfThree a b = true ↔
      0x80 ≤ b.toNat ∧ b.toNat ≤ 0xBF ∧ (a.toNat = 0xE0 → 0xA0 ≤ b.toNat) ∧
        (a.toNat = 0xED → b.toNat ≤ 0x9F) := by
  rw [isSecondOfThree]
  have overlong : a = 0xE0 ↔ a.toNat = 0xE0 := UInt8.toNat_inj.symm
  have surrogate : a = 0xED ↔ a.toNat = 0xED := UInt8.toNat_inj.symm
  simp only [overlong, surrogate]
  split
  · rw [isBetween_iff]
    simp
    omega
  · split
    · rw [isBetween_iff]
      simp
      omega
    · rw [isContinuation_iff]
      omega

/-- The second of four bytes, in numbers. -/
theorem isSecondOfFour_iff (a b : UInt8) :
    isSecondOfFour a b = true ↔
      0x80 ≤ b.toNat ∧ b.toNat ≤ 0xBF ∧ (a.toNat = 0xF0 → 0x90 ≤ b.toNat) ∧
        (a.toNat = 0xF4 → b.toNat ≤ 0x8F) := by
  rw [isSecondOfFour]
  have overlong : a = 0xF0 ↔ a.toNat = 0xF0 := UInt8.toNat_inj.symm
  have beyond : a = 0xF4 ↔ a.toNat = 0xF4 := UInt8.toNat_inj.symm
  simp only [overlong, beyond]
  split
  · rw [isBetween_iff]
    simp
    omega
  · split
    · rw [isBetween_iff]
      simp
      omega
    · rw [isContinuation_iff]
      omega

/-! ### One character

The four forms of a character, by its number of bytes.  Encoding what the bytes of a form stand for gives
these bytes again. -/

theorem toNat_ofNat_of_valid {n : Nat} (valid : n.isValidChar) : (Char.ofNat n).val.toNat = n := by
  rw [Char.ofNat, dif_pos valid]
  rfl

theorem byte_eq {b : UInt8} {n : Nat} (same : n % 256 = b.toNat) : UInt8.ofNat n = b := by
  apply UInt8.toNat_inj.mp
  rw [UInt8.toNat_ofNat']
  exact same

theorem encodeChar_of_one {a : UInt8} (h : a.toNat < 0x80) :
    String.utf8EncodeChar (Char.ofNat a.toNat) = [a] := by
  have value : (Char.ofNat a.toNat).val.toNat = a.toNat :=
    toNat_ofNat_of_valid (Or.inl (by omega))
  simp only [String.utf8EncodeChar, value]
  rw [if_pos (by omega), byte_eq (b := a) (by omega)]

theorem encodeChar_of_two {a b : UInt8} (ha : 0xC2 ≤ a.toNat ∧ a.toNat ≤ 0xDF)
    (hb : 0x80 ≤ b.toNat ∧ b.toNat ≤ 0xBF) :
    String.utf8EncodeChar (Char.ofNat (appendSix (a.toNat % 32) b)) = [a, b] := by
  have value : (Char.ofNat (appendSix (a.toNat % 32) b)).val.toNat =
      a.toNat % 32 * 64 + b.toNat % 64 :=
    toNat_ofNat_of_valid (Or.inl (by rw [appendSix]; omega))
  simp only [String.utf8EncodeChar, value]
  rw [if_neg (by omega), if_pos (by omega), byte_eq (b := a) (by omega), byte_eq (b := b) (by omega)]

theorem encodeChar_of_three {a b c : UInt8} (ha : 0xE0 ≤ a.toNat ∧ a.toNat ≤ 0xEF)
    (hb : isSecondOfThree a b = true) (hc : 0x80 ≤ c.toNat ∧ c.toNat ≤ 0xBF) :
    String.utf8EncodeChar (Char.ofNat (appendSix (appendSix (a.toNat % 16) b) c)) = [a, b, c] := by
  rw [isSecondOfThree_iff] at hb
  have value : (Char.ofNat (appendSix (appendSix (a.toNat % 16) b) c)).val.toNat =
      (a.toNat % 16 * 64 + b.toNat % 64) * 64 + c.toNat % 64 :=
    toNat_ofNat_of_valid (by rw [appendSix, appendSix, Nat.isValidChar]; omega)
  simp only [String.utf8EncodeChar, value]
  rw [if_neg (by omega), if_neg (by omega), if_pos (by omega), byte_eq (b := a) (by omega),
    byte_eq (b := b) (by omega), byte_eq (b := c) (by omega)]

theorem encodeChar_of_four {a b c d : UInt8} (ha : 0xF0 ≤ a.toNat ∧ a.toNat ≤ 0xF4)
    (hb : isSecondOfFour a b = true) (hc : 0x80 ≤ c.toNat ∧ c.toNat ≤ 0xBF)
    (hd : 0x80 ≤ d.toNat ∧ d.toNat ≤ 0xBF) :
    String.utf8EncodeChar
        (Char.ofNat (appendSix (appendSix (appendSix (a.toNat % 8) b) c) d)) = [a, b, c, d] := by
  rw [isSecondOfFour_iff] at hb
  have value : (Char.ofNat (appendSix (appendSix (appendSix (a.toNat % 8) b) c) d)).val.toNat =
      ((a.toNat % 8 * 64 + b.toNat % 64) * 64 + c.toNat % 64) * 64 + d.toNat % 64 :=
    toNat_ofNat_of_valid (by rw [appendSix, appendSix, appendSix, Nat.isValidChar]; omega)
  simp only [String.utf8EncodeChar, value]
  rw [if_neg (by omega), if_neg (by omega), if_neg (by omega), byte_eq (b := a) (by omega),
    byte_eq (b := b) (by omega), byte_eq (b := c) (by omega), byte_eq (b := d) (by omega)]

/-! ### Whole texts

The encoding of a text is that of its characters in turn. -/

theorem isBelow_iff (a : UInt8) : a < 0x80 ↔ a.toNat < 0x80 := UInt8.lt_iff_toNat_lt

theorem encode_cons (c : Char) (text : List Char) :
    encode (c :: text) = String.utf8EncodeChar c ++ encode text := List.flatMap_cons

/-- Texts are encoded piece by piece. -/
theorem encode_append (one two : List Char) : encode (one ++ two) = encode one ++ encode two :=
  List.flatMap_append

/-- What was decoded before is in front of what is decoded next. -/
theorem map_cons_eq_ok {c : Char} {found : Except Error (List Char)} {text : List Char}
    (decoded : (c :: ·) <$> found = .ok text) : ∃ rest, found = .ok rest ∧ text = c :: rest := by
  cases found with
  | error e => cases decoded
  | ok rest =>
      injection decoded with same
      exact ⟨rest, rfl, same.symm⟩

/-- The encoding of a decoded text is what was decoded. -/
theorem encode_of_decodeFrom {index : Nat} {bytes : Bytes} {text : List Char}
    (decoded : decodeFrom index bytes = .ok text) : encode text = bytes := by
  fun_induction decodeFrom index bytes generalizing text with
  | case1 =>
      injection decoded with same
      rw [← same]
      rfl
  | case2 index a rest one ih =>
      obtain ⟨others, onwards, rfl⟩ := map_cons_eq_ok decoded
      rw [encode_cons, ih onwards, encodeChar_of_one ((isBelow_iff a).mp one)]
      rfl
  | case5 index a _ first b rest second ih =>
      obtain ⟨others, onwards, rfl⟩ := map_cons_eq_ok decoded
      rw [isBetween_iff] at first
      rw [encode_cons, ih onwards,
        encodeChar_of_two first ((isContinuation_iff b).mp (by simpa using second))]
      rfl
  | case10 index a _ _ first b second c rest third ih =>
      obtain ⟨others, onwards, rfl⟩ := map_cons_eq_ok decoded
      rw [isBetween_iff] at first
      rw [encode_cons, ih onwards,
        encodeChar_of_three first (by simpa using second)
          ((isContinuation_iff c).mp (by simpa using third))]
      rfl
  | case17 index a _ _ _ first b second c third d rest fourth ih =>
      obtain ⟨others, onwards, rfl⟩ := map_cons_eq_ok decoded
      rw [isBetween_iff] at first
      rw [encode_cons, ih onwards,
        encodeChar_of_four first (by simpa using second)
          ((isContinuation_iff c).mp (by simpa using third))
          ((isContinuation_iff d).mp (by simpa using fourth))]
      rfl
  | _ => cases decoded

/-! ### Decoding what was encoded

Each form is decoded as the character that it stands for, and then the decoder goes on behind it. -/

theorem decodeFrom_of_one (index : Nat) {a : UInt8} (rest : Bytes) (ha : a.toNat < 0x80) :
    decodeFrom index (a :: rest) =
      (Char.ofNat a.toNat :: ·) <$> decodeFrom (index + 1) rest := by
  have short : a < 0x80 := (isBelow_iff a).mpr ha
  rw [decodeFrom.eq_def]
  simp only [if_pos short]

theorem decodeFrom_of_two (index : Nat) {a b : UInt8} (rest : Bytes)
    (ha : 0xC2 ≤ a.toNat ∧ a.toNat ≤ 0xDF) (hb : 0x80 ≤ b.toNat ∧ b.toNat ≤ 0xBF) :
    decodeFrom index (a :: b :: rest) =
      (Char.ofNat (appendSix (a.toNat % 32) b) :: ·) <$> decodeFrom (index + 2) rest := by
  have long : ¬ a < 0x80 := by rw [isBelow_iff]; omega
  have first : (decide (0xC2 ≤ a) && decide (a ≤ 0xDF)) = true := (isBetween_iff _ _ a).mpr ha
  rw [decodeFrom.eq_def]
  simp only [if_neg long, if_pos first, (isContinuation_iff b).mpr hb, Bool.not_true,
    Bool.false_eq_true, if_false]

theorem decodeFrom_of_three (index : Nat) {a b c : UInt8} (rest : Bytes)
    (ha : 0xE0 ≤ a.toNat ∧ a.toNat ≤ 0xEF) (hb : isSecondOfThree a b = true)
    (hc : 0x80 ≤ c.toNat ∧ c.toNat ≤ 0xBF) :
    decodeFrom index (a :: b :: c :: rest) =
      (Char.ofNat (appendSix (appendSix (a.toNat % 16) b) c) :: ·) <$>
        decodeFrom (index + 3) rest := by
  have long : ¬ a < 0x80 := by rw [isBelow_iff]; omega
  have notTwo : ¬ (decide (0xC2 ≤ a) && decide (a ≤ 0xDF)) = true := by
    rw [isBetween_iff]
    simp
    omega
  have first : (decide (0xE0 ≤ a) && decide (a ≤ 0xEF)) = true := (isBetween_iff _ _ a).mpr ha
  rw [decodeFrom.eq_def]
  simp only [if_neg long, if_neg notTwo, if_pos first, hb, (isContinuation_iff c).mpr hc,
    Bool.not_true, Bool.false_eq_true, if_false]

theorem decodeFrom_of_four (index : Nat) {a b c d : UInt8} (rest : Bytes)
    (ha : 0xF0 ≤ a.toNat ∧ a.toNat ≤ 0xF4) (hb : isSecondOfFour a b = true)
    (hc : 0x80 ≤ c.toNat ∧ c.toNat ≤ 0xBF) (hd : 0x80 ≤ d.toNat ∧ d.toNat ≤ 0xBF) :
    decodeFrom index (a :: b :: c :: d :: rest) =
      (Char.ofNat (appendSix (appendSix (appendSix (a.toNat % 8) b) c) d) :: ·) <$>
        decodeFrom (index + 4) rest := by
  have long : ¬ a < 0x80 := by rw [isBelow_iff]; omega
  have notTwo : ¬ (decide (0xC2 ≤ a) && decide (a ≤ 0xDF)) = true := by
    rw [isBetween_iff]
    simp
    omega
  have notThree : ¬ (decide (0xE0 ≤ a) && decide (a ≤ 0xEF)) = true := by
    rw [isBetween_iff]
    simp
    omega
  have first : (decide (0xF0 ≤ a) && decide (a ≤ 0xF4)) = true := (isBetween_iff _ _ a).mpr ha
  rw [decodeFrom.eq_def]
  simp only [if_neg long, if_neg notTwo, if_neg notThree, if_pos first, hb,
    (isContinuation_iff c).mpr hc, (isContinuation_iff d).mpr hd, Bool.not_true,
    Bool.false_eq_true, if_false]

theorem toNat_byte {n : Nat} (small : n < 256) : (UInt8.ofNat n).toNat = n := by
  rw [UInt8.toNat_ofNat', Nat.mod_eq_of_lt small]

/-- The encoding of a character is decoded as that character, whatever follows. -/
theorem decodeFrom_encodeChar (index : Nat) (c : Char) (rest : Bytes) :
    decodeFrom index (String.utf8EncodeChar c ++ rest) =
      (c :: ·) <$> decodeFrom (index + (String.utf8EncodeChar c).length) rest := by
  have valid : c.val.toNat.isValidChar := c.valid
  rw [Nat.isValidChar] at valid
  have same : Char.ofNat c.val.toNat = c := Char.ofNat_toNat c
  simp only [String.utf8EncodeChar]
  generalize c.val.toNat = v at valid same ⊢
  split
  · next one =>
      have a := toNat_byte (n := v) (by omega)
      have decoded := decodeFrom_of_one index (a := .ofNat v) rest (by omega)
      rw [a, same] at decoded
      exact decoded
  · split
    · next two =>
        have a := toNat_byte (n := v / 64 % 0x20 + 0xC0) (by omega)
        have b := toNat_byte (n := v % 0x40 + 0x80) (by omega)
        have decoded := decodeFrom_of_two index (a := .ofNat (v / 64 % 0x20 + 0xC0))
          (b := .ofNat (v % 0x40 + 0x80)) rest (by omega) (by omega)
        have value : appendSix ((v / 64 % 0x20 + 0xC0) % 32) (.ofNat (v % 0x40 + 0x80)) = v := by
          rw [appendSix, b]
          omega
        rw [a, value, same] at decoded
        exact decoded
    · split
      · next three =>
          have a := toNat_byte (n := v / 4096 % 0x10 + 0xE0) (by omega)
          have b := toNat_byte (n := v / 64 % 0x40 + 0x80) (by omega)
          have c := toNat_byte (n := v % 0x40 + 0x80) (by omega)
          have second : isSecondOfThree (.ofNat (v / 4096 % 0x10 + 0xE0))
              (.ofNat (v / 64 % 0x40 + 0x80)) = true := by
            rw [isSecondOfThree_iff, a, b]
            omega
          have decoded := decodeFrom_of_three index
            (c := .ofNat (v % 0x40 + 0x80)) rest (by omega) second (by omega)
          have value : appendSix (appendSix ((v / 4096 % 0x10 + 0xE0) % 16)
              (.ofNat (v / 64 % 0x40 + 0x80))) (.ofNat (v % 0x40 + 0x80)) = v := by
            rw [appendSix, appendSix, b, c]
            omega
          rw [a, value, same] at decoded
          exact decoded
      · next four =>
          have a := toNat_byte (n := v / 262144 % 0x08 + 0xF0) (by omega)
          have b := toNat_byte (n := v / 4096 % 0x40 + 0x80) (by omega)
          have c := toNat_byte (n := v / 64 % 0x40 + 0x80) (by omega)
          have d := toNat_byte (n := v % 0x40 + 0x80) (by omega)
          have second : isSecondOfFour (.ofNat (v / 262144 % 0x08 + 0xF0))
              (.ofNat (v / 4096 % 0x40 + 0x80)) = true := by
            rw [isSecondOfFour_iff, a, b]
            omega
          have decoded := decodeFrom_of_four index
            (c := .ofNat (v / 64 % 0x40 + 0x80)) (d := .ofNat (v % 0x40 + 0x80)) rest
            (by omega) second (by omega) (by omega)
          have value : appendSix (appendSix (appendSix ((v / 262144 % 0x08 + 0xF0) % 8)
              (.ofNat (v / 4096 % 0x40 + 0x80))) (.ofNat (v / 64 % 0x40 + 0x80)))
              (.ofNat (v % 0x40 + 0x80)) = v := by
            rw [appendSix, appendSix, appendSix, b, c, d]
            omega
          rw [a, value, same] at decoded
          exact decoded

/-- What was encoded is decoded as it was. -/
theorem decodeFrom_encode (index : Nat) (text : List Char) :
    decodeFrom index (encode text) = .ok text := by
  induction text generalizing index with
  | nil => rfl
  | cons c rest ih =>
      rw [encode_cons, decodeFrom_encodeChar, ih]
      rfl

/-- Bytes are decoded as a text exactly if they are its encoding. -/
theorem decode_eq_ok_iff {bytes : Bytes} {text : List Char} :
    decode bytes = .ok text ↔ encode text = bytes := by
  constructor
  · exact encode_of_decodeFrom
  · rintro rfl
    exact decodeFrom_encode 0 text

/-! ### Where a text can be split

The bytes below 0x80 stand for characters of their own, so a text can be split at them without decoding it. -/

/-- A byte below 0x80 stands for a character on its own, and is no part of the encoding of another one. -/
theorem encodeChar_eq_of_mem {c : Char} {a : UInt8} (low : a.toNat < 0x80)
    (member : a ∈ String.utf8EncodeChar c) : String.utf8EncodeChar c = [a] := by
  have differs {n : Nat} (high : 0x80 ≤ n) (small : n < 256) : a ≠ .ofNat n := by
    intro same
    rw [same, toNat_byte small] at low
    omega
  simp only [String.utf8EncodeChar] at member ⊢
  split at member
  · next one => rw [if_pos one, List.mem_singleton.mp member]
  · exfalso
    split at member
    · simp only [List.mem_cons, List.not_mem_nil, or_false] at member
      rcases member with same | same
      all_goals exact differs (by omega) (by omega) same
    · split at member
      · simp only [List.mem_cons, List.not_mem_nil, or_false] at member
        rcases member with same | same | same
        all_goals exact differs (by omega) (by omega) same
      · simp only [List.mem_cons, List.not_mem_nil, or_false] at member
        rcases member with same | same | same | same
        all_goals exact differs (by omega) (by omega) same

/-- A byte below 0x80 splits the encoding of a text between two of its characters. -/
theorem exists_encode_eq_of_split {a : UInt8} (low : a.toNat < 0x80) {text : List Char} {before behind : Bytes}
    (split : encode text = before ++ a :: behind) : ∃ one : List Char, encode one = before := by
  induction text generalizing before with
  | nil => simp [encode] at split
  | cons c rest ih =>
      rw [encode_cons, List.append_eq_append_iff] at split
      rcases split with ⟨more, rfl, later⟩ | ⟨more, first, tail⟩
      · obtain ⟨one, rfl⟩ := ih later
        exact ⟨c :: one, encode_cons c one⟩
      · cases more with
        | nil =>
            rw [List.append_nil] at first
            exact ⟨[c], (encode_cons c []).trans ((List.append_nil _).trans first)⟩
        | cons b more =>
            -- The byte is all of the first character, so that nothing stands before it.
            obtain ⟨rfl, -⟩ := List.cons.inj tail
            have member : a ∈ String.utf8EncodeChar c := by
              rw [first]
              exact List.mem_append_right before List.mem_cons_self
            have alone := encodeChar_eq_of_mem low member
            rw [alone] at first
            have lengths := congrArg List.length first
            simp only [List.length_append, List.length_cons, List.length_nil] at lengths
            exact ⟨[], (List.eq_nil_of_length_eq_zero (by omega)).symm⟩

/-! ### Strings

The same for strings, whose characters are a list. -/

theorem bytesOf_ofList (text : List Char) : bytesOf (String.ofList text) = encode text := by
  rw [bytesOf, String.toList_ofList]

theorem bytesOf_inj {s t : String} (same : bytesOf s = bytesOf t) : s = t := by
  have decoded : decode (bytesOf s) = .ok s.toList := decode_eq_ok_iff.mpr rfl
  rw [same, bytesOf, decode_eq_ok_iff.mpr rfl] at decoded
  exact String.toList_inj.mp (Except.ok.inj decoded).symm

/-- Nothing is replaced in bytes that are a text. -/
theorem decodeLossy_bytesOf (s : String) : decodeLossy (bytesOf s) = s := by
  have decoded : decode (bytesOf s) = .ok s.toList := decode_eq_ok_iff.mpr rfl
  rw [decodeLossy, decodeLossyFrom]
  simp only [decoded]
  exact String.ofList_toList

end Utf8

/-- The text of bytes is the one that they encode. -/
theorem Bytes.text?_eq_some_iff {bytes : Bytes} {s : String} :
    bytes.text? = some s ↔ Utf8.bytesOf s = bytes := by
  constructor
  · intro found
    rw [Bytes.text?] at found
    split at found
    · next text decoded =>
        injection found with same
        rw [← same, Utf8.bytesOf_ofList, Utf8.decode_eq_ok_iff.mp decoded]
    · cases found
  · rintro rfl
    have decoded : Utf8.decode (Utf8.bytesOf s) = .ok s.toList := Utf8.decode_eq_ok_iff.mpr rfl
    rw [Bytes.text?, decoded]
    exact congrArg some String.ofList_toList

end Intake

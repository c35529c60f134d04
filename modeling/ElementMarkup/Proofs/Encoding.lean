import Mathlib.Data.List.TakeWhile
import ElementMarkup.Encoding

/-!
What an encoding can write. It has bytes for every character that it decodes bytes to, and for all of
ASCII, and decodes its own bytes to what was written. Only carriage returns are not read back: no
text that was read has any.
-/

namespace ElementMarkup.Encoding

def has : Encoding → Char → Prop
  | .utf8, _ => True
  | .latin1, c => c.toNat < 256
  | .ascii, c => c.toNat < 128

/-- The characters of texts that are read: lines end without carriage returns. -/
def readable (e : Encoding) (c : Char) : Prop := e.has c ∧ c ≠ '\r'

variable {e : Encoding}

theorem has_of_ascii {c : Char} (plain : c.toNat < 128) : e.has c := by
  cases e with
  | utf8 => trivial
  | latin1 => show c.toNat < 256; omega
  | ascii => exact plain

theorem toNat_ofNat_byte (b : UInt8) : (Char.ofNat b.toNat).toNat = b.toNat := by
  have small := b.toNat_lt
  have valid : b.toNat.isValidChar := Or.inl (by omega)
  unfold Char.ofNat
  rw [dif_pos valid]
  rfl

theorem decodeAscii_has {offset : Nat} {bytes : List UInt8} {text : List Char}
    (decoded : decodeAscii offset bytes = .ok text) : ∀ c ∈ text, ascii.has c := by
  induction bytes generalizing offset text with
  | nil =>
    cases decoded
    simp
  | cons b rest ih =>
    unfold decodeAscii at decoded
    split at decoded
    · rename_i plain
      cases later : decodeAscii (offset + 1) rest with
      | error u => simp [later, Except.map] at decoded
      | ok others =>
        rw [later] at decoded
        cases decoded
        refine List.forall_mem_cons.mpr ⟨?_, ih later⟩
        show (Char.ofNat b.toNat).toNat < 128
        rwa [toNat_ofNat_byte]
    · cases decoded

theorem decode_has {bytes : List UInt8} {text : List Char} (decoded : e.decode bytes = .ok text) :
    ∀ c ∈ text, e.has c := by
  cases e with
  | utf8 => exact fun _ _ => trivial
  | latin1 =>
    cases decoded
    intro c member
    obtain ⟨b, -, rfl⟩ := List.mem_map.mp member
    have small := b.toNat_lt
    show (Char.ofNat b.toNat).toNat < 256
    rw [toNat_ofNat_byte]
    omega
  | ascii => exact decodeAscii_has decoded

theorem mem_plainLines {text : List Char} {c : Char} (member : c ∈ plainLines text) :
    c = '\n' ∨ c ∈ text := by
  fun_induction plainLines text with
  | case1 => simp at member
  | case2 d =>
    rw [List.mem_singleton] at member
    split at member
    · exact Or.inl member
    · exact Or.inr (by simp [member])
  | case3 rest ih => grind
  | case4 d rest other ih => grind
  | case5 c d rest plain ih => grind

theorem return_not_mem_plainLines (text : List Char) : '\r' ∉ plainLines text := by
  fun_induction plainLines text with
  | case1 => simp
  | case2 c =>
    rw [List.mem_singleton]
    split
    · decide
    · rename_i other
      exact Ne.symm other
  | case3 rest ih => simpa using ih
  | case4 d rest other ih => simpa using ih
  | case5 c d rest other ih =>
    rw [List.mem_cons, not_or]
    exact ⟨Ne.symm other, ih⟩

theorem plainLines_eq_self {text : List Char} (plain : '\r' ∉ text) : plainLines text = text := by
  fun_induction plainLines text with
  | case1 => rfl
  | case2 c =>
    rw [List.mem_singleton] at plain
    rw [if_neg (Ne.symm plain)]
  | case3 | case4 => simp at plain
  | case5 c d rest other ih => rw [ih (fun member => plain (List.mem_cons_of_mem c member))]

theorem read_readable {bytes : List UInt8} {text : String} (read : e.read bytes = .ok text) :
    ∀ c ∈ text.toList, e.readable c := by
  unfold Encoding.read at read
  cases decoded : e.decode bytes with
  | error u => simp [decoded, Except.map] at read
  | ok chars =>
    rw [decoded] at read
    cases read
    intro c member
    rw [String.toList_ofList] at member
    refine ⟨?_, fun same => return_not_mem_plainLines chars (same ▸ member)⟩
    rcases mem_plainLines member with rfl | inside
    · exact has_of_ascii (by decide)
    · exact decode_has decoded c inside

theorem encodeSingle_eq_ok {size : Nat} {text : List Char} (fits : ∀ c ∈ text, c.toNat < size) :
    ∃ bytes, encodeSingle e size text = .ok bytes := by
  have none : text.dropWhile (fun c => decide (c.toNat < size)) = [] :=
    List.dropWhile_eq_nil_iff.mpr fun c member => by simpa using fits c member
  refine ⟨text.map fun c => UInt8.ofNat c.toNat, ?_⟩
  unfold encodeSingle
  simp only [none]

theorem write_eq_ok {text : String} (covered : ∀ c ∈ text.toList, e.has c) :
    ∃ bytes, e.write text = .ok bytes := by
  cases e with
  | utf8 => exact ⟨_, rfl⟩
  | latin1 => exact encodeSingle_eq_ok covered
  | ascii => exact encodeSingle_eq_ok covered

/-! ### Reading what is written -/

section

variable {offset n code : Nat} {p : Pending} {bytes rest : List UInt8}

/-- The bytes behind a first one hold six bits of the code each. -/
theorem decodeUtf8_digits (first : Nat) (digits : List Nat) (small : ∀ d ∈ first :: digits, d < 64)
    (due : p.due = digits.length + 1) (allowed : p.low ≤ 0x80 + first ∧ 0x80 + first ≤ p.high)
    (whole : (first :: digits).foldl (fun code d => code * 64 + d) p.code = code) :
    ∃ next, decodeUtf8 offset (some p) ((first :: digits).map (fun d => UInt8.ofNat (0x80 + d)) ++ rest) =
      (decodeUtf8 next none rest).map (Char.ofNat code :: ·) := by
  induction digits generalizing offset p first with
  | nil =>
    have byte : 0x80 + first < 256 := by have := small first (by simp); omega
    have last : p.due ≤ 1 := by simp [due]
    refine ⟨offset + 1, ?_⟩
    rw [List.map_cons, List.cons_append, decodeUtf8, UInt8.toNat_ofNat_of_lt' byte, if_pos allowed]
    simp only [if_pos last, Nat.add_sub_cancel_left, ← whole]
    rfl
  | cons second digits ih =>
    obtain ⟨own, others⟩ := List.forall_mem_cons.mp small
    have byte : 0x80 + first < 256 := by omega
    have more : ¬ p.due ≤ 1 := by simp [due]
    have next : second < 64 := others second (by simp)
    rw [List.map_cons, List.cons_append, decodeUtf8, UInt8.toNat_ofNat_of_lt' byte, if_pos allowed]
    simp only [if_neg more, Nat.add_sub_cancel_left]
    refine ih second others (by simp [due]) ⟨?_, ?_⟩ whole
    · show 0x80 ≤ 0x80 + second
      omega
    · show 0x80 + second ≤ 0xBF
      omega

/-- Which sequence a first byte opens, and which second bytes it allows. -/
theorem opening_eq_some (low : 0xC2 ≤ n) (high : n ≤ 0xF4) :
    ∃ p, opening (UInt8.ofNat n) = some p ∧
      (n < 0xE0 → p.due = 1 ∧ p.code = n - 0xC0) ∧
      (0xE0 ≤ n → n < 0xF0 → p.due = 2 ∧ p.code = n - 0xE0) ∧
      (0xF0 ≤ n → p.due = 3 ∧ p.code = n - 0xF0) ∧
      ∀ m, 0x80 ≤ m ∧ m ≤ 0xBF ∧ (n = 0xE0 → 0xA0 ≤ m) ∧ (n = 0xED → m ≤ 0x9F) ∧
        (n = 0xF0 → 0x90 ≤ m) ∧ (n = 0xF4 → m ≤ 0x8F) → p.low ≤ m ∧ m ≤ p.high := by
  have byte : (UInt8.ofNat n).toNat = n := UInt8.toNat_ofNat_of_lt' (show n < 256 by omega)
  simp only [opening, byte]
  repeat' split
  -- every byte in the range opens something
  case' isFalse => omega
  all_goals
    refine ⟨_, rfl, ?_, ?_, ?_, ?_⟩
    all_goals
      intros
      dsimp only
      omega

theorem decodeUtf8_opening (low : 0xC2 ≤ n) (high : n ≤ 0xF4) (opens : opening (UInt8.ofNat n) = some p) :
    decodeUtf8 offset none (UInt8.ofNat n :: rest) = decodeUtf8 (offset + 1) (some p) rest := by
  rw [decodeUtf8, UInt8.toNat_ofNat_of_lt' (show n < 256 by omega), if_neg (by omega), opens]

theorem decodeUtf8_char (c : Char) (rest : List UInt8) (offset : Nat) :
    ∃ next, decodeUtf8 offset none (charUtf8 c ++ rest) = (decodeUtf8 next none rest).map (c :: ·) := by
  have valid : c.toNat < 0xD800 ∨ 0xDFFF < c.toNat ∧ c.toNat < 0x110000 := c.valid
  have same := c.ofNat_toNat
  unfold charUtf8
  generalize c.toNat = n at valid same
  subst same
  simp only
  split
  · rename_i one
    refine ⟨offset + 1, ?_⟩
    rw [List.cons_append, List.nil_append, decodeUtf8, UInt8.toNat_ofNat_of_lt' (show n < 256 by omega),
      if_pos one]
  split
  · have low : 0xC2 ≤ 0xC0 + n / 64 := by omega
    have high : 0xC0 + n / 64 ≤ 0xF4 := by omega
    obtain ⟨p, opens, shape, -, -, allows⟩ := opening_eq_some low high
    obtain ⟨due, code⟩ := shape (by omega)
    rw [List.cons_append, decodeUtf8_opening low high opens]
    refine decodeUtf8_digits (n % 64) [] ?_ due (allows _ (by omega)) ?_
    · simp [Nat.mod_lt]
    · simp only [List.foldl_cons, List.foldl_nil, code]
      omega
  split
  · -- a second byte too small would be a longer form, and one too large a surrogate
    have low : 0xC2 ≤ 0xE0 + n / 4096 := by omega
    have high : 0xE0 + n / 4096 ≤ 0xF4 := by omega
    obtain ⟨p, opens, -, shape, -, allows⟩ := opening_eq_some low high
    obtain ⟨due, code⟩ := shape (by omega) (by omega)
    rw [List.cons_append, decodeUtf8_opening low high opens]
    refine decodeUtf8_digits (n / 64 % 64) [n % 64] ?_ due (allows _ (by omega)) ?_
    · simp [Nat.mod_lt]
    · simp only [List.foldl_cons, List.foldl_nil, code]
      omega
  · have low : 0xC2 ≤ 0xF0 + n / 262144 := by omega
    have high : 0xF0 + n / 262144 ≤ 0xF4 := by omega
    obtain ⟨p, opens, -, -, shape, allows⟩ := opening_eq_some low high
    obtain ⟨due, code⟩ := shape (by omega)
    rw [List.cons_append, decodeUtf8_opening low high opens]
    refine decodeUtf8_digits (n / 4096 % 64) [n / 64 % 64, n % 64] ?_ due (allows _ (by omega)) ?_
    · simp [Nat.mod_lt]
    · simp only [List.foldl_cons, List.foldl_nil, code]
      omega

theorem decodeUtf8_flatMap (text : List Char) (offset : Nat) :
    decodeUtf8 offset none (text.flatMap charUtf8) = .ok text := by
  induction text generalizing offset with
  | nil => rfl
  | cons c rest ih =>
    obtain ⟨next, decoded⟩ := decodeUtf8_char c (rest.flatMap charUtf8) offset
    rw [List.flatMap_cons, decoded, ih]
    rfl

theorem ofNat_byte {c : Char} (small : c.toNat < 256) : Char.ofNat (UInt8.ofNat c.toNat).toNat = c := by
  rw [UInt8.toNat_ofNat_of_lt' small, c.ofNat_toNat]

theorem decodeAscii_map {text : List Char} (plain : ∀ c ∈ text, c.toNat < 128) (offset : Nat) :
    decodeAscii offset (text.map fun c => UInt8.ofNat c.toNat) = .ok text := by
  induction text generalizing offset with
  | nil => rfl
  | cons c rest ih =>
    obtain ⟨own, others⟩ := List.forall_mem_cons.mp plain
    have small : c.toNat < 256 := by omega
    rw [List.map_cons, decodeAscii, ofNat_byte small, UInt8.toNat_ofNat_of_lt' small, if_pos own, ih others]
    rfl

theorem encodeSingle_fits {size : Nat} {text : List Char} (encoded : encodeSingle e size text = .ok bytes) :
    (∀ c ∈ text, c.toNat < size) ∧ bytes = text.map fun c => UInt8.ofNat c.toNat := by
  unfold encodeSingle at encoded
  simp only at encoded
  split at encoded
  · rename_i all
    cases encoded
    refine ⟨fun c member => ?_, rfl⟩
    simpa using List.dropWhile_eq_nil_iff.mp all c member
  · cases encoded

theorem decode_write {text : String} (written : e.write text = .ok bytes) :
    e.decode bytes = .ok text.toList := by
  cases e with
  | utf8 =>
    cases written
    exact decodeUtf8_flatMap text.toList 0
  | latin1 =>
    obtain ⟨fits, rfl⟩ := encodeSingle_fits written
    have same : (text.toList.map fun c => Char.ofNat (UInt8.ofNat c.toNat).toNat) = text.toList := by
      rw [List.map_congr_left fun c member => ofNat_byte (fits c member), List.map_id']
    rw [decode, List.map_map]
    exact congrArg Except.ok same
  | ascii =>
    obtain ⟨fits, rfl⟩ := encodeSingle_fits written
    exact decodeAscii_map fits 0

/-- A text without carriage returns is read back as it was written. -/
theorem read_write {text : String} (written : e.write text = .ok bytes) (plain : '\r' ∉ text.toList) :
    e.read bytes = .ok text := by
  rw [Encoding.read, decode_write written, Except.map, plainLines_eq_self plain, String.ofList_toList]

end

theorem mapError_eq_ok {ε δ α : Type} {f : ε → δ} {result : Except ε α} {a : α} :
    result.mapError f = .ok a ↔ result = .ok a := by
  cases result <;> simp [Except.mapError]

theorem decoder_eq_ok {bytes : List UInt8} {text : String} :
    e.decoder bytes = .ok text ↔ e.read bytes = .ok text :=
  mapError_eq_ok

end ElementMarkup.Encoding

import Mathlib.Data.List.Sort
import Aletheia.ByteCode
import Aletheia.Version

/-!
# The canonical writer

Hash chains and audit exports are hashed over a binary encoding of their content: tagged values, a
presence byte before each optional field, a length before each text and list, and properties sorted
by their key. All parts can be split off again, so that two contents with one encoding are equal, up
to the order of the properties.
-/

namespace Aletheia

open ByteCode List

/-! ### Texts and what the machine's types can hold -/

def utf8 (s : String) : List UInt8 := s.toByteArray.data.toList

lemma utf8_injective : Function.Injective utf8 := by
  intro s t h
  apply String.toByteArray_inj.mp
  cases hs : s.toByteArray
  cases ht : t.toByteArray
  simp only [utf8, hs, ht] at h
  rw [Array.toList_inj.mp h]

/-- `char::is_whitespace`. -/
def isWhitespace (c : Char) : Bool :=
  let n := c.toNat
  (9 ≤ n && n ≤ 13) || n == 0x20 || n == 0x85 || n == 0xa0 || n == 0x1680 ||
    (0x2000 ≤ n && n ≤ 0x200a) || n == 0x2028 || n == 0x2029 || n == 0x202f || n == 0x205f || n == 0x3000

def trim (s : String) : String :=
  String.ofList ((s.toList.dropWhile isWhitespace).reverse.dropWhile isWhitespace).reverse

abbrev Vec (α : Type) := { l : List α // l.length < 256 ^ 8 }

abbrev Text := { s : String // (utf8 s).length < 256 ^ 8 }

mutual

/-- The value is in the range of its Rust type. -/
def PropertyValue.Representable : PropertyValue → Prop
  | .null | .bool _ | .float _ => True
  | .int i => -2 ^ 63 ≤ i ∧ i < 2 ^ 63
  | .string s => (utf8 s).length < 256 ^ 8
  | .bytes b => b.length < 256 ^ 8
  | .array xs => xs.length < 256 ^ 8 ∧ allRepresentable xs
  | .vector xs => xs.length < 256 ^ 8
  | .sparseVector dim entries =>
    dim < 2 ^ 32 ∧ entries.length < 256 ^ 8 ∧ ∀ e ∈ entries, e.1 < 2 ^ 32

def PropertyValue.allRepresentable : List PropertyValue → Prop
  | [] => True
  | x :: xs => x.Representable ∧ allRepresentable xs

end

abbrev StoredValue := { v : PropertyValue // v.Representable }

/-! ### The writer -/

namespace Canon

def u32 (v : ℕ) : List UInt8 := be 4 v

def u64 (v : ℕ) : List UInt8 := be 8 v

def i64 (v : ℤ) : List UInt8 := be 8 (v % 2 ^ 64).toNat

def f32bits (v : BitVec 32) : List UInt8 := be 4 v.toNat

def f64bits (v : BitVec 64) : List UInt8 := be 8 v.toNat

def bool (v : Bool) : List UInt8 := [if v then 1 else 0]

def bytes (b : List UInt8) : List UInt8 := u64 b.length ++ b

def str (s : String) : List UInt8 := bytes (utf8 s)

mutual

/-- A type tag before the payload. -/
def value : PropertyValue → List UInt8
  | .null => [0]
  | .bool b => 1 :: bool b
  | .int i => 2 :: i64 i
  | .float f => 3 :: f64bits f
  | .string s => 4 :: str s
  | .bytes b => 5 :: bytes b
  | .array items => 6 :: (u64 items.length ++ values items)
  | .vector xs => 7 :: counted f32bits xs
  | .sparseVector dim entries =>
    8 :: (u64 dim ++ (counted u32 (entries.map Prod.fst) ++ counted f32bits (entries.map Prod.snd)))

def values : List PropertyValue → List UInt8
  | [] => []
  | x :: xs => value x ++ values xs

end

/-! ### Splitting -/

lemma splitsOn_u32 : SplitsOn (· < 2 ^ 32) Eq u32 := splitsOn_be 4

lemma splitsOn_u64 : SplitsOn (· < 2 ^ 64) Eq u64 := splitsOn_be 8

lemma splitsOn_i64 : SplitsOn (fun i : ℤ => -2 ^ 63 ≤ i ∧ i < 2 ^ 63) Eq i64 := by
  refine (splitsOn_be 8).comap (fun i _ => ?_) fun i j hi hj h => ?_
  · omega
  · omega

lemma splits_uint32 : Splits Eq fun v : UInt32 => u32 v.toNat :=
  splitsOn_u32.comap (fun v _ => v.toNat_lt) fun _ _ _ _ h => UInt32.toNat_inj.mp h

lemma splits_uint64 : Splits Eq fun v : UInt64 => u64 v.toNat :=
  splitsOn_u64.comap (fun v _ => v.toNat_lt) fun _ _ _ _ h => UInt64.toNat_inj.mp h

lemma splits_int64 : Splits Eq fun v : Int64 => i64 v.toInt :=
  splitsOn_i64.comap (fun v _ => ⟨v.le_toInt, v.toInt_lt⟩) fun _ _ _ _ h => Int64.toInt_inj.mp h

lemma splits_f32bits : Splits Eq f32bits :=
  (splitsOn_be 4).comap (fun v _ => v.isLt) fun _ _ _ _ h => BitVec.eq_of_toNat_eq h

lemma splits_f64bits : Splits Eq f64bits :=
  (splitsOn_be 8).comap (fun v _ => v.isLt) fun _ _ _ _ h => BitVec.eq_of_toNat_eq h

lemma splits_bool : Splits Eq bool :=
  splitsOn_of_width 1 (fun _ _ => rfl) (by decide)

lemma splitsOn_bytes : SplitsOn (fun b : List UInt8 => b.length < 256 ^ 8) Eq bytes := by
  intro a b ha hb x y h
  simp only [bytes, append_assoc] at h
  obtain ⟨hlength, h⟩ := splitsOn_u64 _ _ ha hb _ _ h
  exact append_inj h hlength

lemma splitsOn_str : SplitsOn (fun s => (utf8 s).length < 256 ^ 8) Eq str :=
  splitsOn_bytes.comap (fun _ hs => hs) fun _ _ _ _ h => utf8_injective h

lemma splits_text : Splits Eq fun s : Text => str s.1 :=
  splitsOn_str.comap (fun s _ => s.2) fun _ _ _ _ h => Subtype.ext h


lemma eq_of_map_eq {es fs : List (ℕ × BitVec 32)} (hfst : es.map Prod.fst = fs.map Prod.fst)
    (hsnd : es.map Prod.snd = fs.map Prod.snd) : es = fs := by
  have hzip := congrArg₂ List.zip hfst hsnd
  rwa [← unzip_fst, ← unzip_snd, ← unzip_fst, ← unzip_snd, zip_unzip, zip_unzip] at hzip

lemma splitsOn_sparse : SplitsOn (fun v : ℕ × List (ℕ × BitVec 32) => v.1 < 2 ^ 32 ∧
      v.2.length < 256 ^ 8 ∧ ∀ e ∈ v.2, e.1 < 2 ^ 32) Eq
    fun v => u64 v.1 ++ (counted u32 (v.2.map Prod.fst) ++ counted f32bits (v.2.map Prod.snd)) := by
  rintro ⟨dim, es⟩ ⟨dim', fs⟩ ⟨hdim, hes, hes'⟩ ⟨hdim', hfs, hfs'⟩ x y h
  simp only [append_assoc] at h
  obtain ⟨hdims, hindices⟩ := splitsOn_u64 dim dim' (hdim.trans (by decide))
    (hdim'.trans (by decide)) _ _ h
  obtain ⟨hfst, hvalues⟩ := splitsOn_u32.counted (es.map Prod.fst) (fs.map Prod.fst)
    ⟨by simpa using hes, by simpa using hes'⟩ ⟨by simpa using hfs, by simpa using hfs'⟩ _ _ hindices
  obtain ⟨hsnd, hrest⟩ := splits_f32bits.counted (es.map Prod.snd) (fs.map Prod.snd)
    ⟨by simpa using hes, by simp⟩ ⟨by simpa using hfs, by simp⟩ _ _ hvalues
  rw [forall₂_eq_eq_eq] at hfst hsnd
  exact ⟨by rw [hdims, eq_of_map_eq hfst hsnd], hrest⟩

-- structural over the first value; a different constructor has a different tag
mutual

theorem value_split : ∀ (v w : PropertyValue), v.Representable → w.Representable →
    ∀ x y, value v ++ x = value w ++ y → v = w ∧ x = y
  | .null, w, _, _, x, y, h => by
    cases w with
    | null => exact ⟨rfl, (List.cons.inj h).2⟩
    | _ => cases h
  | .bool b, w, _, _, x, y, h => by
    cases w with
    | bool c =>
      obtain ⟨rfl, hrest⟩ := splits_bool.split (List.cons.inj h).2
      exact ⟨rfl, hrest⟩
    | _ => cases h
  | .int i, w, hv, hw, x, y, h => by
    cases w with
    | int j =>
      obtain ⟨rfl, hrest⟩ := splitsOn_i64 _ _ hv hw _ _ (List.cons.inj h).2
      exact ⟨rfl, hrest⟩
    | _ => cases h
  | .float f, w, _, _, x, y, h => by
    cases w with
    | float g =>
      obtain ⟨rfl, hrest⟩ := splits_f64bits.split (List.cons.inj h).2
      exact ⟨rfl, hrest⟩
    | _ => cases h
  | .string s, w, hv, hw, x, y, h => by
    cases w with
    | string t =>
      obtain ⟨rfl, hrest⟩ := splitsOn_str _ _ hv hw _ _ (List.cons.inj h).2
      exact ⟨rfl, hrest⟩
    | _ => cases h
  | .bytes b, w, hv, hw, x, y, h => by
    cases w with
    | bytes c =>
      obtain ⟨rfl, hrest⟩ := splitsOn_bytes _ _ hv hw _ _ (List.cons.inj h).2
      exact ⟨rfl, hrest⟩
    | _ => cases h
  | .array xs, w, hv, hw, x, y, h => by
    cases w with
    | array ys =>
      have h : u64 xs.length ++ values xs ++ x = u64 ys.length ++ values ys ++ y :=
        (List.cons.inj h).2
      rw [append_assoc, append_assoc] at h
      obtain ⟨hlength, h⟩ := splitsOn_u64 _ _ hv.1 hw.1 _ _ h
      obtain ⟨rfl, hrest⟩ := values_split xs ys hlength hv.2 hw.2 x y h
      exact ⟨rfl, hrest⟩
    | _ => cases h
  | .vector xs, w, hv, hw, x, y, h => by
    cases w with
    | vector ys =>
      obtain ⟨hxs, hrest⟩ := splits_f32bits.counted _ _ ⟨hv, by simp⟩ ⟨hw, by simp⟩ _ _
        (List.cons.inj h).2
      rw [forall₂_eq_eq_eq] at hxs
      exact ⟨by rw [hxs], hrest⟩
    | _ => cases h
  | .sparseVector dim entries, w, hv, hw, x, y, h => by
    cases w with
    | sparseVector dim' entries' =>
      obtain ⟨heq, hrest⟩ := splitsOn_sparse (dim, entries) (dim', entries') hv hw _ _
        (List.cons.inj h).2
      cases heq
      exact ⟨rfl, hrest⟩
    | _ => cases h

theorem values_split : ∀ (xs ys : List PropertyValue), xs.length = ys.length →
    PropertyValue.allRepresentable xs → PropertyValue.allRepresentable ys →
    ∀ x y, values xs ++ x = values ys ++ y → xs = ys ∧ x = y
  | [], [], _, _, _, _, _, h => ⟨rfl, h⟩
  | v :: xs, w :: ys, hlength, hxs, hys, x, y, h => by
    simp only [values, append_assoc] at h
    obtain ⟨rfl, htail⟩ := value_split v w hxs.1 hys.1 _ _ h
    obtain ⟨rfl, hrest⟩ := values_split xs ys (by simpa using hlength) hxs.2 hys.2 x y htail
    exact ⟨rfl, hrest⟩

end

lemma splits_value : Splits Eq fun v : StoredValue => value v.1 := by
  intro v w _ _ x y h
  obtain ⟨hvalue, hrest⟩ := value_split v.1 w.1 v.2 w.2 x y h
  exact ⟨Subtype.ext hvalue, hrest⟩

end Canon

end Aletheia

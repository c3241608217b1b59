import RustLake.Rust.Basic

/-! The character tables behind Rust's text methods, as far as ASCII goes, texts cut into words, and
the bytes of a text in UTF-8. -/
namespace RustLake

/-- What `str::to_uppercase` makes of each character. ASCII letters become their capital forms;
nothing is said of other characters. -/
structure Uppercase where
  char : Char → List Char
  ascii : ∀ c, c.toNat < 128 → char c = [c.toUpper]

def Uppercase.text (upper : Uppercase) (s : List Char) : List Char := s.flatMap upper.char

/-- The two mappings of letters, and `char::is_alphanumeric`. -/
structure Unicode where
  lower : Lowercase
  upper : Uppercase
  isAlphanumeric : Char → Bool
  ascii : ∀ c, c.toNat < 128 → isAlphanumeric c = c.isAlphanum

/-- The mappings of the ASCII letters alone. -/
def Unicode.asciiOnly : Unicode where
  lower := ⟨fun c => [c.toLower], fun _ _ => rfl⟩
  upper := ⟨fun c => [c.toUpper], fun _ _ => rfl⟩
  isAlphanumeric := Char.isAlphanum
  ascii _ _ := rfl

/-- `str::split_whitespace`. -/
def splitWhitespace (s : List Char) : List (List Char) :=
  (s.splitOnP isWhitespace).filter (· ≠ [])

/-- `str::trim_matches` of one letter. -/
def trimMatches (c : Char) (s : List Char) : List Char :=
  (s.dropWhile (· = c)).rdropWhile (· = c)

@[simp] theorem Uppercase.text_append (upper : Uppercase) (a b : List Char) :
    upper.text (a ++ b) = upper.text a ++ upper.text b := by
  simp [Uppercase.text]

theorem Uppercase.text_ascii (upper : Uppercase) {s : List Char} (h : ∀ c ∈ s, c.toNat < 128) :
    upper.text s = s.map Char.toUpper := by
  induction s with
  | nil => rfl
  | cons c s ih =>
    obtain ⟨hc, hs⟩ := List.forall_mem_cons.mp h
    have hstep : upper.text (c :: s) = upper.char c ++ upper.text s := rfl
    rw [hstep, ih hs, upper.ascii c hc]
    rfl

/-- `str::as_bytes`. -/
def asBytes (s : List Char) : List UInt8 := s.flatMap String.utf8EncodeChar

/-- `String::from_utf8`; none for bytes that are no text. -/
def fromUtf8? (bytes : List UInt8) : Option (List Char) :=
  bytes.toByteArray.utf8Decode?.map Array.toList

@[simp] theorem asBytes_append (a b : List Char) : asBytes (a ++ b) = asBytes a ++ asBytes b :=
  List.flatMap_append

@[simp] theorem fromUtf8?_asBytes (s : List Char) : fromUtf8? (asBytes s) = some s := by
  have hbytes : (asBytes s).toByteArray = s.utf8Encode := rfl
  rw [fromUtf8?, hbytes, List.utf8Decode?_utf8Encode]
  rfl

theorem utf8EncodeChar_ascii {c : Char} (h : c.toNat < 128) :
    String.utf8EncodeChar c = [c.toUInt8] := by
  have hle : c.val.toNat ≤ 0x7f := by
    have hval : c.toNat = c.val.toNat := rfl
    omega
  rw [String.utf8EncodeChar, if_pos hle]
  rfl

theorem asBytes_ascii {s : List Char} (h : ∀ c ∈ s, c.toNat < 128) :
    asBytes s = s.map fun c => c.toUInt8 := by
  induction s with
  | nil => rfl
  | cons c s ih =>
    obtain ⟨hc, hs⟩ := List.forall_mem_cons.mp h
    have hstep : asBytes (c :: s) = String.utf8EncodeChar c ++ asBytes s := rfl
    rw [hstep, utf8EncodeChar_ascii hc, ih hs]
    rfl

end RustLake

import RustLake.Rust.Unicode
import Mathlib.Data.Nat.Bitwise
import Mathlib.Tactic.IntervalCases

/-! Base64 as the tokens are written in it: four letters for three bytes, with `=` for what is
missing at the end, and the form for URLs with other letters and nothing at the end. -/
namespace RustLake.Auth

def chars : List Char :=
  "ABCDEFGHIJKLMNOPQRSTUVWXYZabcdefghijklmnopqrstuvwxyz0123456789+/".toList

/-- The letter for six bits. -/
def charOf (v : ℕ) : Char := chars.getD v '='

/-- Four letters for the bytes of a chunk. -/
def encodeChunk (b0 : UInt8) (b1 b2 : Option UInt8) : List Char :=
  let triple := b0.toNat <<< 16 ||| (b1.getD 0).toNat <<< 8 ||| (b2.getD 0).toNat
  [charOf (triple >>> 18 &&& 0x3F), charOf (triple >>> 12 &&& 0x3F),
    if b1.isSome then charOf (triple >>> 6 &&& 0x3F) else '=',
    if b2.isSome then charOf (triple &&& 0x3F) else '=']

def base64Encode : List UInt8 → List Char
  | [] => []
  | [b0] => encodeChunk b0 none none
  | [b0, b1] => encodeChunk b0 (some b1) none
  | b0 :: b1 :: b2 :: data => encodeChunk b0 (some b1) (some b2) ++ base64Encode data

def charVal (c : UInt8) : Except String UInt8 :=
  if 'A'.toUInt8 ≤ c ∧ c ≤ 'Z'.toUInt8 then .ok (c - 'A'.toUInt8)
  else if 'a'.toUInt8 ≤ c ∧ c ≤ 'z'.toUInt8 then .ok (c - 'a'.toUInt8 + 26)
  else if '0'.toUInt8 ≤ c ∧ c ≤ '9'.toUInt8 then .ok (c - '0'.toUInt8 + 52)
  else if c = '+'.toUInt8 then .ok 62
  else if c = '/'.toUInt8 then .ok 63
  else if c = '='.toUInt8 then .ok 0
  else .error ("invalid base64 character: " ++ String.singleton (Char.ofNat c.toNat))

def decodeChunk (c0 c1 c2 c3 : UInt8) : Except String (List UInt8) := do
  let a ← charVal c0
  let b ← charVal c1
  let c ← charVal c2
  let d ← charVal c3
  let triple := a.toNat <<< 18 ||| b.toNat <<< 12 ||| c.toNat <<< 6 ||| d.toNat
  return UInt8.ofNat (triple >>> 16 &&& 0xFF) ::
    ((if c2 ≠ '='.toUInt8 then [UInt8.ofNat (triple >>> 8 &&& 0xFF)] else []) ++
      if c3 ≠ '='.toUInt8 then [UInt8.ofNat (triple &&& 0xFF)] else [])

/-- The loop of `base64_decode` over chunks of four bytes. -/
def decodeChunks : List UInt8 → Except String (List UInt8)
  | c0 :: c1 :: c2 :: c3 :: bytes => do
    let chunk ← decodeChunk c0 c1 c2 c3
    let result ← decodeChunks bytes
    return chunk ++ result
  | _ => .ok []

def base64Decode (s : List Char) : Except String (List UInt8) :=
  let bytes := asBytes s
  if bytes.length % 4 ≠ 0 then .error "invalid base64 length" else decodeChunks bytes

/-- `str::replace` of one letter by another. -/
def replaceChar (old new : Char) (s : List Char) : List Char :=
  s.map fun c => if c = old then new else c

def base64UrlEncode (data : List UInt8) : List Char :=
  (replaceChar '/' '_' (replaceChar '+' '-' (base64Encode data))).rdropWhile (· = '=')

def base64UrlDecode (s : List Char) : Except String (List UInt8) :=
  let s := replaceChar '_' '/' (replaceChar '-' '+' s)
  let pad := (4 - byteLength s % 4) % 4
  base64Decode (s ++ List.replicate pad '=')

/-- What `|` makes of numbers without a common bit. -/
theorem or_eq_add {x y n : ℕ} (hx : 2 ^ n ∣ x) (hy : y < 2 ^ n) : x ||| y = x + y := by
  obtain ⟨k, rfl⟩ := hx
  have hshift : 2 ^ n * k = k <<< n := by rw [Nat.shiftLeft_eq, Nat.mul_comm]
  rw [hshift, Nat.shiftLeft_add_eq_or_of_lt hy]

theorem join_bytes {a b c : ℕ} (hb : b < 256) (hc : c < 256) :
    a <<< 16 ||| b <<< 8 ||| c = a * 65536 + b * 256 + c := by
  simp only [Nat.shiftLeft_eq]
  have hfirst : a * 2 ^ 16 ||| b * 2 ^ 8 = a * 2 ^ 16 + b * 2 ^ 8 :=
    or_eq_add (Dvd.intro_left a rfl) (by omega)
  rw [hfirst, or_eq_add (n := 8) (by omega) (by omega)]
  omega

theorem join_sextets {a b c d : ℕ} (hb : b < 64) (hc : c < 64) (hd : d < 64) :
    a <<< 18 ||| b <<< 12 ||| c <<< 6 ||| d = a * 262144 + b * 4096 + c * 64 + d := by
  simp only [Nat.shiftLeft_eq]
  have hfirst : a * 2 ^ 18 ||| b * 2 ^ 12 = a * 2 ^ 18 + b * 2 ^ 12 :=
    or_eq_add (Dvd.intro_left a rfl) (by omega)
  have hsecond : (a * 2 ^ 18 + b * 2 ^ 12) ||| c * 2 ^ 6 = a * 2 ^ 18 + b * 2 ^ 12 + c * 2 ^ 6 :=
    or_eq_add (n := 12) (by omega) (by omega)
  rw [hfirst, hsecond, or_eq_add (n := 6) (by omega) (by omega)]
  omega

/-- The letters for six bits: what they stand for, and that none of them has a meaning of its own
in a token. -/
structure IsLetter (c : Char) (v : ℕ) : Prop where
  val : charVal c.toUInt8 = .ok (UInt8.ofNat v)
  ascii : c.toNat < 128
  ne_pad : c.toUInt8 ≠ '='.toUInt8
  ne_minus : c ≠ '-'
  ne_underscore : c ≠ '_'
  ne_dot : c ≠ '.'

theorem isLetter_charOf {v : ℕ} (h : v < 64) : IsLetter (charOf v) v := by
  interval_cases v <;> exact ⟨rfl, by decide, by decide, by decide, by decide, by decide⟩

/-- Three bytes from the values of four letters. -/
theorem decodeChunk_eq {c0 c1 c2 c3 : UInt8} {t : ℕ} (ht : t < 2 ^ 24)
    (h0 : charVal c0 = .ok (UInt8.ofNat (t / 262144 % 64)))
    (h1 : charVal c1 = .ok (UInt8.ofNat (t / 4096 % 64)))
    (h2 : charVal c2 = .ok (UInt8.ofNat (t / 64 % 64)))
    (h3 : charVal c3 = .ok (UInt8.ofNat (t % 64))) :
    decodeChunk c0 c1 c2 c3 = .ok (UInt8.ofNat (t / 65536 % 256) ::
      ((if c2 ≠ '='.toUInt8 then [UInt8.ofNat (t / 256 % 256)] else []) ++
        if c3 ≠ '='.toUInt8 then [UInt8.ofNat (t % 256)] else [])) := by
  have hsmall : ∀ v, (UInt8.ofNat (v % 64)).toNat = v % 64 := by
    intro v
    rw [UInt8.toNat_ofNat']
    omega
  have htriple : (UInt8.ofNat (t / 262144 % 64)).toNat <<< 18 |||
      (UInt8.ofNat (t / 4096 % 64)).toNat <<< 12 ||| (UInt8.ofNat (t / 64 % 64)).toNat <<< 6 |||
      (UInt8.ofNat (t % 64)).toNat = t := by
    simp only [hsmall]
    rw [join_sextets (by omega) (by omega) (by omega)]
    omega
  have hbits : ∀ n, n &&& 0xFF = n % 256 := fun n => Nat.and_two_pow_sub_one_eq_mod n 8
  rw [decodeChunk, h0, h1, h2, h3]
  simp only [bind, Except.bind, htriple, hbits, Nat.shiftRight_eq_div_pow]
  rfl

/-- The bits of a chunk. -/
def triple (b0 : UInt8) (b1 b2 : Option UInt8) : ℕ :=
  b0.toNat * 65536 + (b1.getD 0).toNat * 256 + (b2.getD 0).toNat

section
variable (b0 : UInt8) (b1 b2 : Option UInt8)

theorem triple_lt : triple b0 b1 b2 < 2 ^ 24 := by
  have h0 := b0.toNat_lt
  have h1 := (b1.getD 0).toNat_lt
  have h2 := (b2.getD 0).toNat_lt
  rw [triple]
  omega

theorem encodeChunk_eq : encodeChunk b0 b1 b2 =
    [charOf (triple b0 b1 b2 / 262144 % 64), charOf (triple b0 b1 b2 / 4096 % 64),
      if b1.isSome then charOf (triple b0 b1 b2 / 64 % 64) else '=',
      if b2.isSome then charOf (triple b0 b1 b2 % 64) else '='] := by
  have hbits : ∀ n, n &&& 0x3F = n % 64 := fun n => Nat.and_two_pow_sub_one_eq_mod n 6
  rw [encodeChunk, join_bytes (b1.getD 0).toNat_lt (b2.getD 0).toNat_lt]
  simp only [hbits, Nat.shiftRight_eq_div_pow]
  rfl

/-- A letter, or `=` where the bits are missing. -/
theorem letter_or_pad {b : Option UInt8} {v : ℕ} (hv : v < 64) (hmissing : b = none → v = 0) :
    charVal (if b.isSome then charOf v else '=').toUInt8 = .ok (UInt8.ofNat v) ∧
      ((if b.isSome then charOf v else '=').toUInt8 ≠ '='.toUInt8 ↔ b.isSome) := by
  cases b with
  | none =>
    rw [hmissing rfl]
    exact ⟨rfl, by simp⟩
  | some byte => exact ⟨(isLetter_charOf hv).val, by simp [(isLetter_charOf hv).ne_pad]⟩

/-- The letters of a chunk, decoded. -/
theorem decodeChunk_encodeChunk (h : b1 = none → b2 = none) :
    decodeChunk (charOf (triple b0 b1 b2 / 262144 % 64)).toUInt8
      (charOf (triple b0 b1 b2 / 4096 % 64)).toUInt8
      (if b1.isSome then charOf (triple b0 b1 b2 / 64 % 64) else '=').toUInt8
      (if b2.isSome then charOf (triple b0 b1 b2 % 64) else '=').toUInt8 =
    .ok (b0 :: (b1.toList ++ b2.toList)) := by
  have hlt := triple_lt b0 b1 b2
  have hb0 := b0.toNat_lt
  have hb1 := (b1.getD 0).toNat_lt
  have hb2 := (b2.getD 0).toNat_lt
  have hthird : b1 = none → triple b0 b1 b2 / 64 % 64 = 0 := by
    intro hnone
    rw [h hnone, hnone, triple]
    have hzero : ((none : Option UInt8).getD 0).toNat = 0 := rfl
    omega
  have hfourth : b2 = none → triple b0 b1 b2 % 64 = 0 := by
    intro hnone
    rw [hnone, triple]
    have hzero : ((none : Option UInt8).getD 0).toNat = 0 := rfl
    omega
  obtain ⟨hval2, hpad2⟩ := letter_or_pad (Nat.mod_lt _ (by omega)) hthird
  obtain ⟨hval3, hpad3⟩ := letter_or_pad (Nat.mod_lt _ (by omega)) hfourth
  rw [decodeChunk_eq hlt (isLetter_charOf (Nat.mod_lt _ (by omega))).val
    (isLetter_charOf (Nat.mod_lt _ (by omega))).val hval2 hval3]
  simp only [hpad2, hpad3]
  have hfirst : triple b0 b1 b2 / 65536 % 256 = b0.toNat := by
    rw [triple]
    omega
  have hsecond : triple b0 b1 b2 / 256 % 256 = (b1.getD 0).toNat := by
    rw [triple]
    omega
  have hlast : triple b0 b1 b2 % 256 = (b2.getD 0).toNat := by
    rw [triple]
    omega
  rw [hfirst, hsecond, hlast]
  cases b1 <;> cases b2 <;> simp

end

/-- Letters, and `=` up to a multiple of four. -/
structure Padded (s body : List Char) (pad : ℕ) : Prop where
  eq : s = body ++ List.replicate pad '='
  letters : ∀ c ∈ body, ∃ v, IsLetter c v
  pad_lt : pad < 4
  length : (body.length + pad) % 4 = 0

theorem isLetter_mod (n : ℕ) : ∃ v, IsLetter (charOf (n % 64)) v :=
  ⟨n % 64, isLetter_charOf (Nat.mod_lt n (by omega))⟩

theorem padded_base64Encode (data : List UInt8) :
    ∃ body pad, Padded (base64Encode data) body pad := by
  induction data using base64Encode.induct with
  | case1 => exact ⟨[], 0, rfl, by simp, by omega, rfl⟩
  | case2 b0 =>
    refine ⟨(encodeChunk b0 none none).take 2, 2, ?_, ?_, by omega, ?_⟩ <;>
      simp [base64Encode, encodeChunk_eq, isLetter_mod]
  | case3 b0 b1 =>
    refine ⟨(encodeChunk b0 (some b1) none).take 3, 1, ?_, ?_, by omega, ?_⟩ <;>
      simp [base64Encode, encodeChunk_eq, isLetter_mod]
  | case4 b0 b1 b2 data ih =>
    obtain ⟨body, pad, heq, hletters, hpad, hlength⟩ := ih
    have hchunk : ∀ c ∈ encodeChunk b0 (some b1) (some b2), ∃ v, IsLetter c v := by
      simp [encodeChunk_eq, isLetter_mod]
    have hfour : (encodeChunk b0 (some b1) (some b2)).length = 4 := rfl
    refine ⟨encodeChunk b0 (some b1) (some b2) ++ body, pad, ?_, ?_, hpad, ?_⟩
    · rw [base64Encode, heq, List.append_assoc]
    · intro c hc
      rcases List.mem_append.mp hc with hc | hc
      · exact hchunk c hc
      · exact hletters c hc
    · rw [List.length_append]
      omega

variable {s body : List Char} {pad : ℕ}

theorem Padded.ascii (h : Padded s body pad) : ∀ c ∈ s, c.toNat < 128 := by
  intro c hc
  rw [h.eq] at hc
  rcases List.mem_append.mp hc with hc | hc
  · obtain ⟨v, hv⟩ := h.letters c hc
    exact hv.ascii
  · rw [List.eq_of_mem_replicate hc]
    decide

theorem asBytes_base64Encode (data : List UInt8) :
    asBytes (base64Encode data) = (base64Encode data).map Char.toUInt8 := by
  obtain ⟨body, pad, h⟩ := padded_base64Encode data
  exact asBytes_ascii h.ascii

theorem decodeChunks_map (data : List UInt8) :
    decodeChunks ((base64Encode data).map Char.toUInt8) = .ok data := by
  induction data using base64Encode.induct with
  | case1 => rfl
  | case2 b0 =>
    rw [base64Encode, encodeChunk_eq]
    simp only [List.map_cons, List.map_nil, decodeChunks]
    rw [decodeChunk_encodeChunk b0 none none (fun _ => rfl)]
    rfl
  | case3 b0 b1 =>
    rw [base64Encode, encodeChunk_eq]
    simp only [List.map_cons, List.map_nil, decodeChunks]
    rw [decodeChunk_encodeChunk b0 (some b1) none (fun _ => rfl)]
    rfl
  | case4 b0 b1 b2 data ih =>
    rw [base64Encode, encodeChunk_eq]
    simp only [List.map_cons, List.cons_append, List.nil_append, decodeChunks]
    rw [decodeChunk_encodeChunk b0 (some b1) (some b2) (by simp), ih]
    rfl

theorem base64Decode_base64Encode (data : List UInt8) :
    base64Decode (base64Encode data) = .ok data := by
  obtain ⟨body, pad, h⟩ := padded_base64Encode data
  have hlength : (base64Encode data).length % 4 = 0 := by
    rw [h.eq, List.length_append, List.length_replicate]
    exact h.length
  rw [base64Decode, asBytes_base64Encode, List.length_map, if_neg (not_not.mpr hlength)]
  exact decodeChunks_map data

@[simp] theorem replaceChar_append (old new : Char) (a b : List Char) :
    replaceChar old new (a ++ b) = replaceChar old new a ++ replaceChar old new b :=
  List.map_append

theorem mem_replaceChar {old new c : Char} {s : List Char} (h : c ∈ replaceChar old new s) :
    c = new ∨ c ∈ s ∧ c ≠ old := by
  obtain ⟨d, hd, rfl⟩ := List.mem_map.mp h
  split_ifs with hold
  · exact Or.inl rfl
  · exact Or.inr ⟨hd, hold⟩

/-- The letters of the form for URLs. -/
def urlLetters (s : List Char) : List Char := replaceChar '/' '_' (replaceChar '+' '-' s)

theorem not_mem_urlLetters {c : Char} (hminus : c ≠ '-') (hunderscore : c ≠ '_') (h : c ∉ body) :
    c ∉ urlLetters body := by
  intro hc
  rcases mem_replaceChar hc with heq | ⟨hc, -⟩
  · exact hunderscore heq
  · rcases mem_replaceChar hc with heq | ⟨hc, -⟩
    · exact hminus heq
    · exact h hc

/-- The letters that the form for URLs leaves out are put back. -/
theorem standardLetters_urlLetters (hminus : '-' ∉ body) (hunderscore : '_' ∉ body) :
    replaceChar '_' '/' (replaceChar '-' '+' (urlLetters body)) = body := by
  simp only [urlLetters, replaceChar, List.map_map]
  conv_rhs => rw [← List.map_id body]
  apply List.map_congr_left
  intro c hc
  have hne : c ≠ '-' := fun heq => hminus (heq ▸ hc)
  have hne' : c ≠ '_' := fun heq => hunderscore (heq ▸ hc)
  by_cases hplus : c = '+'
  · simp [hplus]
  · by_cases hslash : c = '/'
    · simp [hslash]
    · simp [hplus, hslash, hne, hne']

theorem Padded.not_mem (h : Padded s body pad) :
    '=' ∉ body ∧ '-' ∉ body ∧ '_' ∉ body ∧ '.' ∉ body := by
  refine ⟨?_, ?_, ?_, ?_⟩ <;> intro hc <;> obtain ⟨v, hv⟩ := h.letters _ hc
  · exact hv.ne_pad rfl
  · exact hv.ne_minus rfl
  · exact hv.ne_underscore rfl
  · exact hv.ne_dot rfl

/-- The form for URLs has no padding. -/
theorem Padded.url {data : List UInt8} (h : Padded (base64Encode data) body pad) :
    base64UrlEncode data = urlLetters body := by
  have hpad : urlLetters (List.replicate pad '=') = List.replicate pad '=' := by
    simp [urlLetters, replaceChar]
  have hnot : '=' ∉ urlLetters body :=
    not_mem_urlLetters (by decide) (by decide) h.not_mem.1
  have hsplit : replaceChar '/' '_' (replaceChar '+' '-' (base64Encode data)) =
      urlLetters body ++ List.replicate pad '=' := by
    rw [h.eq, replaceChar_append, replaceChar_append]
    exact congrArg (urlLetters body ++ ·) hpad
  rw [base64UrlEncode, hsplit, List.rdropWhile, List.reverse_append, List.reverse_replicate,
    List.dropWhile_append_of_pos (by simp), List.dropWhile_eq_self_iff.mpr, List.reverse_reverse]
  intro hpos hhead
  have hmem : (urlLetters body).reverse.get ⟨0, hpos⟩ ∈ urlLetters body :=
    List.mem_reverse.mp (List.get_mem _ _)
  have heq : (urlLetters body).reverse.get ⟨0, hpos⟩ = '=' := of_decide_eq_true hhead
  exact hnot (heq ▸ hmem)

/-- The text for URLs has no dot in it. -/
theorem dot_not_mem_base64UrlEncode (data : List UInt8) : '.' ∉ base64UrlEncode data := by
  obtain ⟨body, pad, h⟩ := padded_base64Encode data
  rw [h.url]
  exact not_mem_urlLetters (by decide) (by decide) h.not_mem.2.2.2

/-- The padding is found again from the length. -/
theorem base64UrlDecode_base64UrlEncode (data : List UInt8) :
    base64UrlDecode (base64UrlEncode data) = .ok data := by
  obtain ⟨body, pad, h⟩ := padded_base64Encode data
  obtain ⟨-, hminus, hunderscore, -⟩ := h.not_mem
  have hback := standardLetters_urlLetters hminus hunderscore
  have hascii : ∀ c ∈ body, c.toNat < 128 := by
    intro c hc
    obtain ⟨v, hv⟩ := h.letters c hc
    exact hv.ascii
  have hpad : (4 - byteLength body % 4) % 4 = pad := by
    have hlength := h.length
    have hlt := h.pad_lt
    rw [byteLength_ascii hascii]
    omega
  rw [base64UrlDecode, h.url, hback, hpad, ← h.eq]
  exact base64Decode_base64Encode data

/-- The letters that an ASCII character can be if it stands for six bits. -/
theorem alphanum_of_charVal : ∀ n < 128, (charVal (Char.ofNat n).toUInt8).isOk →
    (Char.ofNat n).toUInt8 ≠ '='.toUInt8 →
    (Char.ofNat n).isAlphanum ∨ Char.ofNat n = '+' ∨ Char.ofNat n = '/' := by
  decide +kernel

theorem IsLetter.alphanum {c : Char} {v : ℕ} (h : IsLetter c v) :
    c.isAlphanum ∨ c = '+' ∨ c = '/' := by
  have hok : (charVal c.toUInt8).isOk := by
    rw [h.val]
    rfl
  have hall := alphanum_of_charVal c.toNat h.ascii
  rw [Char.ofNat_toNat] at hall
  exact hall hok h.ne_pad

/-- Letters, digits and the two characters that URLs take for the other two. -/
theorem mem_urlLetters {c : Char} (h : ∀ c ∈ body, ∃ v, IsLetter c v) (hc : c ∈ urlLetters body) :
    c.isAlphanum ∨ c = '-' ∨ c = '_' := by
  rcases mem_replaceChar hc with hunderscore | ⟨hc, hslash⟩
  · exact Or.inr (Or.inr hunderscore)
  · rcases mem_replaceChar hc with hminus | ⟨hc, hplus⟩
    · exact Or.inr (Or.inl hminus)
    · obtain ⟨v, hv⟩ := h c hc
      rcases hv.alphanum with halphanum | heq | heq
      · exact Or.inl halphanum
      · exact absurd heq hplus
      · exact absurd heq hslash

/-- Bytes come back from the form for URLs, which has no other characters than URLs allow. -/
theorem base64Url_roundTrip (data : List UInt8) :
    base64UrlDecode (base64UrlEncode data) = .ok data ∧
      (∀ c ∈ base64UrlEncode data, c.isAlphanum ∨ c = '-' ∨ c = '_') ∧
      '.' ∉ base64UrlEncode data := by
  refine ⟨base64UrlDecode_base64UrlEncode data, ?_, dot_not_mem_base64UrlEncode data⟩
  obtain ⟨body, pad, h⟩ := padded_base64Encode data
  intro c hc
  rw [h.url] at hc
  exact mem_urlLetters h.letters hc

end RustLake.Auth

import Determined.Schemes.LexicalPath

/-! The part of Go's `net/url` that addresses rest on: a rooted URL is parsed and printed again. Its
    path is unescaped, and what is printed is the escaped path, or the path as it was written where
    that is a valid encoding of the same (`EscapedPath`).

    A string is a list of characters, and an unescaped path the list of its bytes. What a host or a
    fragment is parsed to is left out. -/

namespace Determined.Actor
open Determined.Schemes

namespace URL

/-! ### Escapes -/

def isUnreserved (c : Char) : Bool := c.isAlphanum || ['-', '_', '.', '~'].contains c

/-- Whether a character is escaped in a path. -/
def shouldEscape (c : Char) : Bool :=
  !(isUnreserved c || ['$', '&', '+', ',', '/', ':', ';', '=', '@'].contains c)

def isHex (c : Char) : Bool :=
  c.isDigit || ('a' ≤ c && c ≤ 'f') || ('A' ≤ c && c ≤ 'F')

def unhex (c : Char) : ℕ :=
  if c.isDigit then c.toNat - '0'.toNat
  else if 'a' ≤ c then c.toNat - 'a'.toNat + 10
  else c.toNat - 'A'.toNat + 10

def upperhex (n : ℕ) : Char := "0123456789ABCDEF".toList.getD n '0'

def escape (bytes : List UInt8) : Path :=
  bytes.flatMap fun b =>
    let c := Char.ofNat b.toNat
    if shouldEscape c then ['%', upperhex (b.toNat / 16), upperhex (b.toNat % 16)] else [c]

/-- The bytes that a string stands for, if every `%` has two hexadecimal digits behind it. -/
def unescape : Path → Option (List UInt8)
  | [] => some []
  | c :: cs =>
    if c = '%' then
      match cs with
      | a :: b :: rest =>
        if isHex a && isHex b then
          (unescape rest).map (UInt8.ofNat (unhex a * 16 + unhex b) :: ·)
        else none
      | _ => none
    else (unescape cs).map (String.utf8EncodeChar c ++ ·)

/-- The characters reserved for the parts of a segment. -/
def isSubDelim (c : Char) : Bool :=
  ['!', '$', '&', '\x27', '(', ')', '*', '+', ',', ';', '='].contains c

/-- Only characters that may stand in an encoded path. -/
def validEncodedPath (p : Path) : Bool :=
  p.all fun c => isSubDelim c || [':', '@', '[', ']', '%'].contains c || !shouldEscape c

/-! ### Parsing and printing -/

inductive ParseError where
  | invalidControlCharacter
  | escapeError
  /-- A host or a fragment. -/
  | notFollowed
  deriving DecidableEq, Repr

end URL

structure URL where
  path : List UInt8
  /-- The path as it was written, where that is not how it would be escaped. -/
  rawPath : Path
  forceQuery : Bool
  rawQuery : Path
  deriving DecidableEq, Repr

namespace URL

def isCTL (c : Char) : Bool := c.toNat < 32 || c.toNat == 127

/-- `url.Parse` of a string that starts with a slash. -/
def parse (s : Path) : Except ParseError URL :=
  if s.contains '#' || ['/', '/'].isPrefixOf s then .error .notFollowed
  else if s.any isCTL then .error .invalidControlCharacter
  else
    let rest := s.takeWhile (· != '?')
    let query := s.drop rest.length
    match unescape rest with
    | none => .error .escapeError
    | some path => .ok
      { path := path
        rawPath := if rest = escape path then [] else rest
        forceQuery := query == ['?']
        rawQuery := query.drop 1 }

def escapedPath (u : URL) : Path :=
  if u.rawPath ≠ [] ∧ validEncodedPath u.rawPath = true ∧ unescape u.rawPath = some u.path then
    u.rawPath
  else if u.path = [42] then ['*']
  else escape u.path

def string (u : URL) : Path :=
  u.escapedPath ++ if u.forceQuery || u.rawQuery != [] then '?' :: u.rawQuery else []

/-! ### URL-safe text -/

/-- A character that may stand in a path segment as it is. -/
def isPchar (c : Char) : Bool := isUnreserved c || isSubDelim c || [':', '@'].contains c

/-- Characters that may stand in a path segment, and escapes. -/
def isSafe : Path → Bool
  | [] => true
  | c :: cs =>
    if c = '%' then
      match cs with
      | a :: b :: rest => isHex a && isHex b && isSafe rest
      | _ => false
    else isPchar c && isSafe cs

theorem unescape_of_ne {c : Char} (hc : c ≠ '%') (cs : Path) :
    unescape (c :: cs) = (unescape cs).map (String.utf8EncodeChar c ++ ·) := by
  rw [unescape.eq_def]
  simp only [if_neg hc]

/-- What a string stands for is put together of what its parts stand for. -/
theorem unescape_append {p q : Path} {bytes : List UInt8} (h : unescape p = some bytes) :
    unescape (p ++ q) = (unescape q).map (bytes ++ ·) := by
  fun_induction unescape p generalizing bytes with
  | case1 =>
    cases h
    simp
  | case2 a b rest hhex ih =>
    obtain ⟨tail, htail, rfl⟩ := Option.map_eq_some_iff.mp h
    rw [List.cons_append, List.cons_append, List.cons_append, unescape, if_pos rfl]
    simp only [hhex, if_true, ih htail, Option.map_map]
    rfl
  | case3 => cases h
  | case4 => cases h
  | case5 c cs hc ih =>
    obtain ⟨tail, htail, rfl⟩ := Option.map_eq_some_iff.mp h
    rw [List.cons_append, unescape_of_ne hc, ih htail, Option.map_map]
    exact Option.map_congr fun bytes _ => (List.append_assoc ..).symm

theorem isPchar_of_isHex {c : Char} (h : isHex c = true) : isPchar c = true := by
  have halnum : c.isAlphanum = true := by
    simp only [isHex, Char.isAlphanum, Char.isAlpha, Char.isUpper, Char.isLower, Bool.or_eq_true,
      Bool.and_eq_true, decide_eq_true_eq, Char.le_def] at h ⊢
    have hf : 'f'.val ≤ 'z'.val := by decide
    have hF : 'F'.val ≤ 'Z'.val := by decide
    rcases h with (h | ⟨ha, hle⟩) | ⟨hA, hle⟩
    · exact .inr h
    · exact .inl (.inr ⟨ha, UInt32.le_trans hle hf⟩)
    · exact .inl (.inl ⟨hA, UInt32.le_trans hle hF⟩)
  rw [isPchar, isUnreserved, halnum]
  rfl

/-- Safe text consists of characters that may stand in a segment, and stands for some bytes. -/
theorem isSafe_spec {p : Path} (h : isSafe p = true) :
    (∀ c ∈ p, isPchar c = true ∨ c = '%') ∧ ∃ bytes, unescape p = some bytes := by
  fun_induction isSafe p with
  | case1 => exact ⟨by simp, [], rfl⟩
  | case2 a b rest ih =>
    rw [Bool.and_eq_true] at h
    obtain ⟨hchars, bytes, hbytes⟩ := ih h.2
    have hhex := Bool.and_eq_true_iff.mp h.1
    refine ⟨fun c hc => ?_, UInt8.ofNat (unhex a * 16 + unhex b) :: bytes, ?_⟩
    · rcases List.mem_cons.mp hc with rfl | hc
      · exact .inr rfl
      rcases List.mem_cons.mp hc with rfl | hc
      · exact .inl (isPchar_of_isHex hhex.1)
      rcases List.mem_cons.mp hc with rfl | hc
      · exact .inl (isPchar_of_isHex hhex.2)
      · exact hchars c hc
    · rw [unescape, if_pos rfl]
      simp only [h.1, if_true, hbytes, Option.map_some]
  | case3 => cases h
  | case4 c cs hc ih =>
    rw [Bool.and_eq_true] at h
    obtain ⟨hchars, bytes, hbytes⟩ := ih h.2
    refine ⟨List.forall_mem_cons.mpr ⟨.inl h.1, hchars⟩, String.utf8EncodeChar c ++ bytes, ?_⟩
    rw [unescape_of_ne hc, hbytes, Option.map_some]

/-! ### Safe text is printed as it was parsed -/

/-- What stands in a path of safe segments apart from letters and digits. -/
def otherPathChars : List Char :=
  ['-', '_', '.', '~', '!', '$', '&', '\x27', '(', ')', '*', '+', ',', ';', '=', ':', '@', '%', '/']

/-- Such a character neither ends the path nor is out of place in it. -/
theorem pathChar_spec {c : Char} (h : (isPchar c = true ∨ c = '%') ∨ c = '/') :
    c ≠ '#' ∧ c ≠ '?' ∧ isCTL c = false ∧
      (isSubDelim c || [':', '@', '[', ']', '%'].contains c || !shouldEscape c) = true := by
  by_cases halnum : c.isAlphanum = true
  · have hrange : 48 ≤ c.toNat ∧ c.toNat ≤ 122 ∧ c.toNat ≠ 63 := by
      simp only [Char.isAlphanum, Char.isAlpha, Char.isUpper, Char.isLower, Char.isDigit,
        Bool.or_eq_true, Bool.and_eq_true, decide_eq_true_eq, UInt32.le_iff_toNat_le, ge_iff_le,
        Char.reduceVal, UInt32.reduceToNat] at halnum
      have hval : c.toNat = c.val.toNat := rfl
      omega
    refine ⟨?_, ?_, ?_, ?_⟩
    · rintro rfl
      exact absurd hrange.1 (by decide)
    · rintro rfl
      exact hrange.2.2 rfl
    · have h32 : ¬ c.toNat < 32 := by omega
      have h127 : c.toNat ≠ 127 := by omega
      simp [isCTL, h32, h127]
    · simp [shouldEscape, isUnreserved, halnum]
  · have hother : otherPathChars.all (fun c => c != '#' && c != '?' && !isCTL c &&
        (isSubDelim c || [':', '@', '[', ']', '%'].contains c || !shouldEscape c)) = true := by
      decide +kernel
    suffices hmem : c ∈ otherPathChars by
      have hc := List.all_eq_true.mp hother c hmem
      simp only [Bool.and_eq_true, bne_iff_ne, Bool.not_eq_true'] at hc
      exact ⟨hc.1.1.1, hc.1.1.2, hc.1.2, hc.2⟩
    have hfalse : c.isAlphanum = false := Bool.eq_false_iff.mpr halnum
    simp only [isPchar, isUnreserved, isSubDelim, hfalse, Bool.false_or, Bool.or_eq_true,
      List.contains_iff_mem, otherPathChars, List.mem_cons, List.not_mem_nil, or_false] at h ⊢
    grind

/-- A rooted path of safe segments is the URL's path, and is printed as it is. -/
theorem string_parse {p : Path} {bytes : List UInt8} (hroot : ∃ c q, p = '/' :: c :: q ∧ c ≠ '/')
    (hchars : ∀ c ∈ p, (isPchar c = true ∨ c = '%') ∨ c = '/') (hbytes : unescape p = some bytes) :
    ∃ u, parse p = .ok u ∧ u.string = p := by
  have hhash : p.contains '#' = false := by
    rw [Bool.eq_false_iff, ne_eq, List.contains_iff_mem]
    exact fun h => (pathChar_spec (hchars _ h)).1 rfl
  have hslashes : ['/', '/'].isPrefixOf p = false := by
    obtain ⟨c, q, rfl, hc⟩ := hroot
    simp [List.isPrefixOf, Ne.symm hc]
  have hctl : p.any isCTL = false := by
    rw [List.any_eq_false]
    exact fun c hc => by simp [(pathChar_spec (hchars c hc)).2.2.1]
  have htake : p.takeWhile (· != '?') = p := by
    rw [List.takeWhile_eq_self_iff]
    exact fun c hc => by simp [(pathChar_spec (hchars c hc)).2.1]
  have hvalid : validEncodedPath p = true :=
    List.all_eq_true.mpr fun c hc => (pathChar_spec (hchars c hc)).2.2.2
  refine ⟨⟨bytes, if p = escape bytes then [] else p, false, []⟩, ?_, ?_⟩
  · simp only [parse, hhash, hslashes, Bool.or_self, Bool.false_eq_true, if_false, hctl, htake, hbytes,
      List.drop_length]
    rfl
  · have hstar : bytes ≠ [42] := by
      rintro rfl
      obtain ⟨c, q, rfl, -⟩ := hroot
      rw [unescape_of_ne (by decide)] at hbytes
      obtain ⟨rest, -, hrest⟩ := Option.map_eq_some_iff.mp hbytes
      have hslash : String.utf8EncodeChar '/' = [47] := by decide
      simp [hslash] at hrest
    have hne : p ≠ [] := by
      rintro rfl
      obtain ⟨c, q, h, -⟩ := hroot
      cases h
    simp only [string, escapedPath, Bool.false_or, bne_self_eq_false, Bool.false_eq_true, if_false,
      List.append_nil, if_neg hstar]
    by_cases heq : p = escape bytes
    · rw [if_pos heq, if_neg (by simp), ← heq]
    · rw [if_neg heq, if_pos ⟨hne, hvalid, hbytes⟩]

end URL

end Determined.Actor

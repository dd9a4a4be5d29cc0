/-
Instinct/Uris.lean

The generic syntax of URIs, as a small library of its own: the characters that may stand in
each part, percent-coding, and the parts that a URI is cut into.

Percent-coded text is decoded as what it was (`unescape_escape`), and decoding shortens a
text that has anything to decode (`length_unescape_lt`).  IP literals are left out.
-/
import Mathlib.Data.List.Basic
import Mathlib.Data.List.Infix

namespace Uris

abbrev Bytes := List UInt8

/-! ### Characters -/

/-- The bytes of a text in ASCII. -/
def ascii (s : String) : Bytes := s.toList.map Char.toUInt8

def isAlpha (c : UInt8) : Bool :=
  ('A'.toUInt8 ≤ c && c ≤ 'Z'.toUInt8) || ('a'.toUInt8 ≤ c && c ≤ 'z'.toUInt8)

def isDigit (c : UInt8) : Bool := '0'.toUInt8 ≤ c && c ≤ '9'.toUInt8

def isHex (c : UInt8) : Bool :=
  isDigit c || ('A'.toUInt8 ≤ c && c ≤ 'F'.toUInt8) || ('a'.toUInt8 ≤ c && c ≤ 'f'.toUInt8)

def isUnreserved (c : UInt8) : Bool := isAlpha c || isDigit c || (ascii "-._~").contains c

def isSubDelim (c : UInt8) : Bool := (ascii "!$&'()*+,;=").contains c

/-- What may stand in a segment of a path besides percent-coded bytes. -/
def isPathChar (c : UInt8) : Bool := isUnreserved c || isSubDelim c || (ascii ":@").contains c

/-- What may stand in a query besides percent-coded bytes. -/
def isQueryChar (c : UInt8) : Bool := isPathChar c || (ascii "/?").contains c

def percent : UInt8 := '%'.toUInt8

/-! ### Percent-coding -/

/-- A hexadecimal digit, for numbers below 16. -/
def hexDigit (n : Nat) : UInt8 := (ascii "0123456789ABCDEF").getD n 0

def hexValue (c : UInt8) : Nat :=
  if isDigit c then c.toNat - 48 else if c ≤ 'F'.toUInt8 then c.toNat - 55 else c.toNat - 87

/-- A byte as it is coded. -/
def escapeByte (c : UInt8) : Bytes :=
  if isUnreserved c then [c] else [percent, hexDigit (c.toNat / 16), hexDigit (c.toNat % 16)]

def escape (s : Bytes) : Bytes := s.flatMap escapeByte

/-- Decode what is coded.  A percent sign without two digits is left as it is. -/
def unescape : Bytes → Bytes
  | c :: a :: b :: rest =>
      if c = percent ∧ isHex a = true ∧ isHex b = true then
        UInt8.ofNat (hexValue a * 16 + hexValue b) :: unescape rest
      else c :: unescape (a :: b :: rest)
  | rest => rest

/-- Only characters of a kind and percent-coded bytes. -/
def isText (ok : UInt8 → Bool) : Bytes → Bool
  | c :: a :: b :: rest =>
      if c = percent then isHex a && isHex b && isText ok rest
      else ok c && isText ok (a :: b :: rest)
  | rest => rest.all ok

section PercentCoding

variable {ok : UInt8 → Bool} {s u : Bytes} {a b c : UInt8}

theorem hexDigit_spec : ∀ n < 16, isHex (hexDigit n) = true ∧ hexValue (hexDigit n) = n := by
  decide

theorem isHex_percent : isHex percent = false := by decide

theorem isUnreserved_of_isHex (h : isHex c = true) : isUnreserved c = true := by
  simp only [isHex, isDigit, isUnreserved, isAlpha, Bool.or_eq_true, Bool.and_eq_true,
    decide_eq_true_eq, UInt8.le_iff_toNat_le] at h ⊢
  have hletters : ('F'.toUInt8).toNat ≤ ('Z'.toUInt8).toNat ∧
      ('f'.toUInt8).toNat ≤ ('z'.toUInt8).toNat := by decide
  omega

theorem isQueryChar_of_isUnreserved (h : isUnreserved c = true) : isQueryChar c = true := by
  rw [isQueryChar, isPathChar, h]
  rfl

theorem isQueryChar_of_isHex (h : isHex c = true) : isQueryChar c = true :=
  isQueryChar_of_isUnreserved (isUnreserved_of_isHex h)

/-- Coded bytes are decoded, whatever is behind them. -/
theorem unescape_triple (ha : isHex a = true) (hb : isHex b = true) (rest : Bytes) :
    unescape (percent :: a :: b :: rest)
      = UInt8.ofNat (hexValue a * 16 + hexValue b) :: unescape rest := by
  rw [unescape, if_pos ⟨rfl, ha, hb⟩]

theorem unescape_cons (hc : c ≠ percent) (rest : Bytes) :
    unescape (c :: rest) = c :: unescape rest := by
  rcases rest with - | ⟨a, - | ⟨b, rest⟩⟩
  · rfl
  · rfl
  · rw [unescape, if_neg fun h => hc h.1]

theorem unescape_escapeByte (c : UInt8) (rest : Bytes) :
    unescape (escapeByte c ++ rest) = c :: unescape rest := by
  rw [escapeByte]
  by_cases hc : isUnreserved c = true
  · rw [if_pos hc]
    refine unescape_cons ?_ rest
    rintro rfl
    exact absurd hc (by decide)
  · obtain ⟨hhigh, hhigh'⟩ := hexDigit_spec (c.toNat / 16) (by have := c.toNat_lt; omega)
    obtain ⟨hlow, hlow'⟩ := hexDigit_spec (c.toNat % 16) (Nat.mod_lt _ (by decide))
    rw [if_neg hc]
    refine (unescape_triple hhigh hlow rest).trans ?_
    rw [hhigh', hlow', Nat.div_add_mod', UInt8.ofNat_toNat]

/-- **What is coded is decoded** as what it was. -/
theorem unescape_escape (s : Bytes) : unescape (escape s) = s := by
  induction s with
  | nil => rfl
  | cons c s ih => rw [escape, List.flatMap_cons, unescape_escapeByte, ← escape, ih]

theorem unescape_of_notMem (h : percent ∉ s) : unescape s = s := by
  induction s with
  | nil => rfl
  | cons c s ih =>
      obtain ⟨hc, hs⟩ := not_or.mp (mt List.mem_cons.mpr h)
      rw [unescape_cons (Ne.symm hc), ih hs]

theorem length_unescape_le (s : Bytes) : (unescape s).length ≤ s.length := by
  induction s using unescape.induct with
  | case1 c a b rest h ih =>
      rw [unescape, if_pos h]
      simp only [List.length_cons]
      omega
  | case2 c a b rest h ih =>
      rw [unescape, if_neg h]
      exact Nat.succ_le_succ ih
  | case3 rest h => rw [unescape.eq_2 rest h]

/-- A text that has anything to decode gets shorter. -/
theorem length_unescape_lt (ha : isHex a = true) (hb : isHex b = true) (rest : Bytes) :
    (unescape (u ++ percent :: a :: b :: rest)).length
      < (u ++ percent :: a :: b :: rest).length := by
  induction u with
  | nil =>
      have hle := length_unescape_le rest
      rw [List.nil_append, unescape_triple ha hb]
      simp only [List.length_cons]
      omega
  | cons c u ih =>
      rw [List.cons_append]
      generalize u ++ percent :: a :: b :: rest = s at ih
      rcases s with - | ⟨a', - | ⟨b', rest'⟩⟩
      · exact absurd ih (Nat.lt_irrefl _)
      · exact absurd ih (Nat.lt_irrefl _)
      · rw [unescape]
        split
        · have hle := length_unescape_le rest'
          simp only [List.length_cons]
          omega
        · exact Nat.succ_lt_succ ih

theorem mem_escape (hc : c ∈ escape s) : isUnreserved c = true ∨ c = percent := by
  have hdigit : ∀ n < 16, isUnreserved (hexDigit n) = true := by decide
  obtain ⟨d, -, hd⟩ := List.mem_flatMap.mp hc
  rw [escapeByte] at hd
  split at hd
  · next hunreserved =>
      rw [List.mem_singleton.mp hd]
      exact .inl hunreserved
  · simp only [List.mem_cons, List.not_mem_nil, or_false] at hd
    rcases hd with rfl | rfl | rfl
    · exact .inr rfl
    · exact .inl (hdigit _ (by have := d.toNat_lt; omega))
    · exact .inl (hdigit _ (Nat.mod_lt _ (by decide)))

theorem escape_eq_nil_iff : escape s = [] ↔ s = [] := by
  rcases s with - | ⟨c, s⟩
  · exact iff_of_true rfl rfl
  · refine iff_of_false ?_ (List.cons_ne_nil _ _)
    rw [escape, List.flatMap_cons, escapeByte]
    split <;> exact List.cons_ne_nil _ _

/-! ### Text -/

theorem isText_cons (hc : c ≠ percent) (rest : Bytes) :
    isText ok (c :: rest) = (ok c && isText ok rest) := by
  rcases rest with - | ⟨a, - | ⟨b, rest⟩⟩
  · rfl
  · rfl
  · rw [isText, if_neg hc]

theorem isText_triple (ha : isHex a = true) (hb : isHex b = true) (rest : Bytes) :
    isText ok (percent :: a :: b :: rest) = isText ok rest := by
  rw [isText, if_pos rfl, ha, hb, Bool.true_and, Bool.true_and]

/-- In a text each percent sign has two digits behind it, by induction along what is in front. -/
theorem digits_of_isText (hok : ok percent = false) {rest : Bytes} (n : Nat) (hn : u.length < n)
    (h : isText ok (u ++ percent :: rest) = true) :
    ∃ a b rest', rest = a :: b :: rest' ∧ isHex a = true ∧ isHex b = true := by
  induction n generalizing u with
  | zero => exact absurd hn (Nat.not_lt_zero _)
  | succ n ih =>
      rcases u with - | ⟨c, u⟩
      · rcases rest with - | ⟨a, - | ⟨b, rest⟩⟩
        · simp [isText, hok] at h
        · simp [isText, hok] at h
        · rw [List.nil_append, isText, if_pos rfl, Bool.and_eq_true, Bool.and_eq_true] at h
          exact ⟨a, b, rest, rfl, h.1.1, h.1.2⟩
      · rw [List.length_cons] at hn
        by_cases hc : c = percent
        · -- the digits behind are no percent signs
          subst hc
          rcases u with - | ⟨a, - | ⟨b, u⟩⟩
          · rcases rest with - | ⟨b, rest⟩
            · simp [isText, hok] at h
            · simp [isText, isHex_percent] at h
          · simp [isText, isHex_percent] at h
          · simp only [List.cons_append, isText, if_true, Bool.and_eq_true] at h
            simp only [List.length_cons] at hn
            exact ih (by omega) h.2
        · rw [List.cons_append, isText_cons hc, Bool.and_eq_true] at h
          exact ih (by omega) h.2

/-- A text consists of its characters and percent signs. -/
theorem mem_of_isText (hok : ∀ c, isHex c = true → ok c = true) (h : isText ok s = true)
    (hc : c ∈ s) : c = percent ∨ ok c = true := by
  induction s using isText.induct with
  | case1 a b rest ih =>
      rw [isText, if_pos rfl, Bool.and_eq_true, Bool.and_eq_true] at h
      obtain ⟨⟨ha, hb⟩, hrest⟩ := h
      simp only [List.mem_cons] at hc
      rcases hc with rfl | rfl | rfl | hc
      · exact .inl rfl
      · exact .inr (hok _ ha)
      · exact .inr (hok _ hb)
      · exact ih hrest hc
  | case2 d a b rest hd ih =>
      rw [isText, if_neg hd, Bool.and_eq_true] at h
      rcases List.mem_cons.mp hc with rfl | hc
      · exact .inr h.1
      · exact ih h.2 hc
  | case3 rest hrest =>
      rw [isText.eq_2 ok rest hrest] at h
      exact .inr (List.all_eq_true.mp h c hc)

/-- Characters of the kind are a text, in front of any other. -/
theorem isText_append_of_all (hok : ok percent = false) (h : ∀ c ∈ u, ok c = true) (s : Bytes) :
    isText ok (u ++ s) = isText ok s := by
  induction u with
  | nil => rfl
  | cons c u ih =>
      obtain ⟨hc, hu⟩ := List.forall_mem_cons.mp h
      have hne : c ≠ percent := by
        rintro rfl
        exact absurd hc (by rw [hok]; exact Bool.false_ne_true)
      rw [List.cons_append, isText_cons hne, hc, Bool.true_and, ih hu]

/-- So is what is coded. -/
theorem isText_escape_append (hok : ∀ c, isUnreserved c = true → ok c = true)
    (hpercent : ok percent = false) (s rest : Bytes) :
    isText ok (escape s ++ rest) = isText ok rest := by
  induction s with
  | nil => rfl
  | cons c s ih =>
      rw [escape, List.flatMap_cons, List.append_assoc, escapeByte, ← escape]
      split
      · next hc =>
          refine (isText_append_of_all hpercent ?_ _).trans ih
          rintro d hd
          rw [List.mem_singleton.mp hd]
          exact hok c hc
      · obtain ⟨hhigh, -⟩ := hexDigit_spec (c.toNat / 16) (by have := c.toNat_lt; omega)
        obtain ⟨hlow, -⟩ := hexDigit_spec (c.toNat % 16) (Nat.mod_lt _ (by decide))
        exact (isText_triple hhigh hlow _).trans ih

end PercentCoding

/-! ### The parts of a URI -/

structure Uri where
  scheme : Bytes := []
  host : Bytes := []
  portText : Bytes := []
  path : List Bytes := []
  query : Bytes := []
  deriving DecidableEq

/-- What stands in front of the first of some characters, and what is behind. -/
def upTo (stops : Bytes) (s : Bytes) : Bytes × Bytes :=
  (s.takeWhile fun c => !stops.contains c, s.dropWhile fun c => !stops.contains c)

def isScheme (s : Bytes) : Bool :=
  match s with
  | [] => false
  | c :: rest => isAlpha c && rest.all fun c => isAlpha c || isDigit c || (ascii "+-.").contains c

/-- The host and the port of an authority, without its user. -/
def parseAuthority (authority : Bytes) : Option (Bytes × Bytes) :=
  let (user, hostPort) :=
    match upTo (ascii "@") authority with
    | (user, _ :: hostPort) => (user, hostPort)
    | (hostPort, []) => ([], hostPort)
  let (host, portText) := upTo (ascii ":") hostPort
  if isText (fun c => isUnreserved c || isSubDelim c || c = ':'.toUInt8) user &&
      isText (fun c => isUnreserved c || isSubDelim c) host && (portText.drop 1).all isDigit then
    some (host, portText.drop 1)
  else none

/-- The segments of a path. -/
def segments (path : Bytes) : List Bytes :=
  if path = [] then []
  else if path.head? = some '/'.toUInt8 then (path.drop 1).splitOn '/'.toUInt8
  else path.splitOn '/'.toUInt8

/-- The query and the fragment behind a path. -/
def parseTail (tail : Bytes) : Bytes × Bytes :=
  let (query, fragment) := upTo (ascii "#") tail
  (query.drop 1, fragment.drop 1)

/-- The path, the query and the fragment, behind the host and the port. -/
def parsePath (scheme host portText s : Bytes) : Option Uri :=
  let (path, tail) := upTo (ascii "?#") s
  let (query, fragment) := parseTail tail
  if (segments path).all (isText isPathChar) && isText isQueryChar query &&
      isText isQueryChar fragment then
    some { scheme, host, portText, path := segments path, query }
  else none

/-- What is behind the scheme.  Without an authority the root alone has no segment. -/
def parseHierPart (scheme s : Bytes) : Option Uri :=
  if s.take 2 = ascii "//" then
    let (authority, rest) := upTo (ascii "/?#") (s.drop 2)
    (parseAuthority authority).bind fun (host, portText) => parsePath scheme host portText rest
  else
    (parsePath scheme [] [] s).map fun uri =>
      if uri.path = [[]] then { uri with path := [] } else uri

/-- A URI or a relative reference, cut into its parts. -/
def parse (s : Bytes) : Option Uri :=
  match upTo (ascii ":/?#") s with
  | (scheme, c :: rest) =>
      if c = ':'.toUInt8 then
        if isScheme scheme then parseHierPart scheme rest else none
      else parseHierPart [] s
  | (_, []) => parseHierPart [] s

section Parse

/-- The part is the longest one without a stop. -/
theorem upTo_append {stops s rest : Bytes} (h : ∀ c ∈ s, stops.contains c = false)
    (hrest : ∀ c ∈ rest.head?, stops.contains c = true) : upTo stops (s ++ rest) = (s, rest) := by
  have hall : ∀ c ∈ s, (!stops.contains c) = true := fun c hc => by rw [h c hc]; rfl
  rw [upTo, List.takeWhile_append_of_pos hall, List.dropWhile_append_of_pos hall]
  rcases rest with - | ⟨c, rest⟩
  · rw [List.takeWhile_nil, List.append_nil, List.dropWhile_nil]
  · have hc := hrest c rfl
    rw [List.takeWhile_cons_of_neg (by rw [hc]; exact Bool.false_ne_true), List.append_nil,
      List.dropWhile_cons_of_neg (by rw [hc]; exact Bool.false_ne_true)]

/-- Segments with a slash in front of each. -/
def pathText (path : List Bytes) : Bytes := path.flatMap ('/'.toUInt8 :: ·)

theorem segments_pathText {path : List Bytes} (h : ∀ segment ∈ path, '/'.toUInt8 ∉ segment) :
    segments (pathText path) = path := by
  rcases path with - | ⟨segment, path⟩
  · rfl
  · have hjoin : ∀ (first : Bytes) (rest : List Bytes),
        first ++ pathText rest = ['/'.toUInt8].intercalate (first :: rest) := by
      intro first rest
      induction rest generalizing first with
      | nil => simp [pathText]
      | cons next rest ih =>
          rw [List.intercalate_cons_cons, ← ih next, List.append_assoc]
          rfl
    have hcons : pathText (segment :: path) = '/'.toUInt8 :: (segment ++ pathText path) := rfl
    rw [hcons, segments, if_neg (List.cons_ne_nil _ _), List.head?_cons, if_pos rfl, List.drop_one,
      List.tail_cons, hjoin, List.splitOn_intercalate _ h (List.cons_ne_nil _ _)]

theorem head?_pathText {path : List Bytes} {tail : Bytes} {c : UInt8}
    (hc : c ∈ (pathText path ++ tail).head?) : c = '/'.toUInt8 ∨ c ∈ tail.head? := by
  rcases path with - | ⟨segment, path⟩
  · exact .inr hc
  · exact .inl (Option.some.inj hc).symm

/-- Characters of a kind are none of the stops. -/
theorem contains_eq_false {ok : UInt8 → Bool} {stops : Bytes}
    (hstops : stops.all (fun c => !ok c) = true) {c : UInt8} (hc : ok c = true) :
    stops.contains c = false := by
  rw [List.contains_eq_mem, decide_eq_false_iff_not]
  intro hmem
  have hnot := List.all_eq_true.mp hstops c hmem
  rw [hc] at hnot
  cases hnot

theorem isText_of_all {ok : UInt8 → Bool} (hok : ok percent = false) {s : Bytes}
    (h : ∀ c ∈ s, ok c = true) : isText ok s = true := by
  have happend := isText_append_of_all hok h []
  rwa [List.append_nil] at happend

theorem parseAuthority_host_port {host port : Bytes} (hhost : ∀ c ∈ host, isUnreserved c = true)
    (hport : ∀ c ∈ port, isDigit c = true) :
    parseAuthority (host ++ ':'.toUInt8 :: port) = some (host, port) := by
  have huser : upTo (ascii "@") (host ++ ':'.toUInt8 :: port)
      = (host ++ ':'.toUInt8 :: port, []) := by
    have h := @upTo_append (ascii "@") (host ++ ':'.toUInt8 :: port) [] ?_ fun c hc => by cases hc
    · rwa [List.append_nil] at h
    · intro c hc
      rcases List.mem_append.mp hc with hc | hc
      · exact contains_eq_false (by decide) (hhost c hc)
      · rcases List.mem_cons.mp hc with rfl | hc
        · decide
        · exact contains_eq_false (by decide) (hport c hc)
  have hsplit : upTo (ascii ":") (host ++ ':'.toUInt8 :: port) = (host, ':'.toUInt8 :: port) := by
    refine upTo_append (fun c hc => contains_eq_false (by decide) (hhost c hc)) fun c hc => ?_
    rw [← Option.some.inj hc]
    decide
  have htext : isText (fun c => isUnreserved c || isSubDelim c) host = true :=
    isText_of_all (by decide) fun c hc => by rw [hhost c hc, Bool.true_or]
  rw [parseAuthority, huser]
  simp only [hsplit, htext, List.drop_one, List.tail_cons, List.all_eq_true.mpr hport]
  rfl

theorem parsePath_pathText {scheme host port tail : Bytes} {path : List Bytes}
    (hpath : ∀ segment ∈ path, ∀ c ∈ segment, isUnreserved c = true)
    (htail : ∀ c ∈ tail.head?, (ascii "?#").contains c = true) :
    parsePath scheme host port (pathText path ++ tail) =
      if isText isQueryChar (parseTail tail).1 && isText isQueryChar (parseTail tail).2 then
        some { scheme, host, portText := port, path, query := (parseTail tail).1 }
      else none := by
  have hsplit : upTo (ascii "?#") (pathText path ++ tail) = (pathText path, tail) := by
    refine upTo_append (fun c hc => ?_) htail
    obtain ⟨segment, hsegment, hc⟩ := List.mem_flatMap.mp hc
    rcases List.mem_cons.mp hc with rfl | hc
    · decide
    · exact contains_eq_false (by decide) (hpath segment hsegment c hc)
  have hsegments : segments (pathText path) = path := by
    refine segments_pathText fun segment hsegment hslash => ?_
    exact absurd (hpath segment hsegment _ hslash) (by decide)
  have hall : path.all (isText isPathChar) = true := by
    refine List.all_eq_true.mpr fun segment hsegment => isText_of_all (by decide) fun c hc => ?_
    rw [isPathChar, hpath segment hsegment c hc]
    rfl
  rw [parsePath, hsplit]
  simp only [hsegments, hall, Bool.true_and]

/-- A host, a port and a path of unreserved characters are found in front of the query. -/
theorem parse_url {scheme host port tail : Bytes} {path : List Bytes}
    (hscheme : isScheme scheme = true) (hletters : ∀ c ∈ scheme, isAlpha c = true)
    (hhost : ∀ c ∈ host, isUnreserved c = true) (hport : ∀ c ∈ port, isDigit c = true)
    (hpath : ∀ segment ∈ path, ∀ c ∈ segment, isUnreserved c = true)
    (htail : ∀ c ∈ tail.head?, (ascii "?#").contains c = true) :
    parse (scheme ++ (ascii "://" ++ (host ++ ':'.toUInt8 :: port ++ (pathText path ++ tail)))) =
      if isText isQueryChar (parseTail tail).1 && isText isQueryChar (parseTail tail).2 then
        some { scheme, host, portText := port, path, query := (parseTail tail).1 }
      else none := by
  have hstart : upTo (ascii ":/?#")
        (scheme ++ (ascii "://" ++ (host ++ ':'.toUInt8 :: port ++ (pathText path ++ tail))))
      = (scheme, ascii "://" ++ (host ++ ':'.toUInt8 :: port ++ (pathText path ++ tail))) := by
    refine upTo_append (fun c hc => contains_eq_false (by decide) (hletters c hc)) fun c hc => ?_
    rw [← Option.some.inj hc]
    decide
  have hauthority : upTo (ascii "/?#") (host ++ ':'.toUInt8 :: port ++ (pathText path ++ tail))
      = (host ++ ':'.toUInt8 :: port, pathText path ++ tail) := by
    refine upTo_append (fun c hc => ?_) fun c hc => ?_
    · rcases List.mem_append.mp hc with hc | hc
      · exact contains_eq_false (by decide) (hhost c hc)
      · rcases List.mem_cons.mp hc with rfl | hc
        · decide
        · exact contains_eq_false (by decide) (hport c hc)
    · rcases head?_pathText hc with rfl | hc
      · decide
      · have hstop := htail c hc
        rw [List.contains_eq_mem, decide_eq_true_eq] at hstop ⊢
        exact List.mem_cons_of_mem _ hstop
  rw [parse, hstart]
  show (if isScheme scheme = true then parseHierPart scheme (ascii "//" ++
    (host ++ ':'.toUInt8 :: port ++ (pathText path ++ tail))) else none) = _
  rw [if_pos hscheme, parseHierPart]
  have hdrop : (ascii "//" ++ (host ++ ':'.toUInt8 :: port ++ (pathText path ++ tail))).drop 2
      = host ++ ':'.toUInt8 :: port ++ (pathText path ++ tail) := rfl
  rw [if_pos (by rfl), hdrop, hauthority]
  show (parseAuthority (host ++ ':'.toUInt8 :: port)).bind _ = _
  rw [parseAuthority_host_port hhost hport]
  exact parsePath_pathText hpath htail

end Parse

end Uris

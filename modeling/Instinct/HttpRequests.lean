/-
Instinct/HttpRequests.lean

`HttpUtils`: the URL of a request, and the request that is read from such a URL.

A value is coded before it is written into the URL, and a key is not, though both are decoded
when they are read.  A pair without a value is not read at all.  So a request comes back if and
only if no value is empty and the keys are made of characters that mean themselves in a query
(`requestReadsBack_iff`).
-/
import Instinct.OrderedMaps
import Instinct.StringUtils
import Instinct.Uris

namespace Instinct.HttpRequests

open OrderedMaps StringUtils Uris

/-! ### Requests -/

inductive HttpMethod
  | unspecified | get | post | put | delete | head
  deriving DecidableEq

inductive HttpProtocol
  | unspecified | http | https
  deriving DecidableEq

structure Endpoint where
  protocol : HttpProtocol := .unspecified
  host : Bytes := []
  port : Int := 0
  deriving DecidableEq

structure HttpRequest where
  endpoint : Endpoint := {}
  method : HttpMethod := .get
  target : Bytes := []
  parameters : OrderedMap Bytes Bytes := .empty

/-- A letter for each byte. -/
def letters (s : Bytes) : List Char := s.map fun c => Char.ofNat c.toNat

def toUpper (s : Bytes) : Bytes :=
  s.map fun c => if 'a'.toUInt8 ≤ c && c ≤ 'z'.toUInt8 then c - 32 else c

/-- `ParseMethod`. -/
def parseMethod (s : Bytes) : HttpMethod :=
  let m := toUpper s
  if m = ascii "PUT" then .put
  else if m = ascii "GET" then .get
  else if m = ascii "POST" then .post
  else if m = ascii "DELETE" then .delete
  else if m = ascii "HEAD" then .head
  else .unspecified

/-- A protocol as it is printed. -/
def protocolText : HttpProtocol → Bytes
  | .http => ascii "http"
  | .https => ascii "https"
  | .unspecified => []

def ampersand : UInt8 := '&'.toUInt8

def equals : UInt8 := '='.toUInt8

/-- A pair of a query.  Only the value is coded. -/
def pairText (parameter : Bytes × Bytes) : Bytes := parameter.1 ++ equals :: escape parameter.2

def queryString (parameters : List (Bytes × Bytes)) : Bytes :=
  [ampersand].intercalate (parameters.map pairText)

/-- The URL in front of the query, with something behind it. -/
def urlWith (call : HttpRequest) (tail : Bytes) : Bytes :=
  let port :=
    if call.endpoint.port = 0 then if call.endpoint.protocol = .http then 80 else 443
    else call.endpoint.port
  protocolText call.endpoint.protocol ++ (ascii "://" ++
    (call.endpoint.host ++ ':'.toUInt8 :: ascii (toString port) ++ (call.target ++ tail)))

/-- `CreateUrlString`. -/
def createUrlString (call : HttpRequest) : Bytes :=
  if call.parameters.entries = [] then urlWith call []
  else urlWith call ('?'.toUInt8 :: queryString call.parameters.entries)

def isBlankByte (c : UInt8) : Bool := (ascii " \t\n\x0b\x0c\r").contains c

/-- `ReSplit` at blanks. -/
def reSplitBlanks (s : Bytes) : List Bytes :=
  match s.splitOnP isBlankByte with
  | first :: rest => first :: rest.filter (· ≠ [])
  | [] => []

/-- A round of the loop over the pairs of a query. -/
def readParameter (parameters : OrderedMap Bytes Bytes) (part : Bytes) :
    Except Exn (OrderedMap Bytes Bytes) :=
  match reSplit equals part with
  | [k, v] => pure (parameters.set (unescape k) (unescape v))
  | _ => .error (.client ("illegal query parameter pair: " ++ String.ofList (letters part)))

/-- `ParseQueryParameters`. -/
def parseQueryParameters (query : Bytes) : Except Exn (OrderedMap Bytes Bytes) :=
  if query = [] then pure .empty
  else (reSplit ampersand query).foldlM readParameter .empty

/-- The protocol of a scheme, and its port where the URL names none.  Other schemes are not
supported. -/
def schemeDefaults (call : HttpRequest) (scheme : Bytes) : HttpProtocol × Int :=
  if scheme = ascii "http" then (.http, 80)
  else if scheme = ascii "https" then (.https, 443)
  else (.unspecified, call.endpoint.port)

/-- What is filled in from the parts of a URL. -/
def fillRequest (call : HttpRequest) (uri : Uri) : Except Exn HttpRequest := do
  let (protocol, port) := schemeDefaults call uri.scheme
  let port ← if uri.portText = [] then pure port else stoi (letters uri.portText)
  let parameters ← parseQueryParameters uri.query
  pure { call with
    endpoint := { protocol, host := uri.host, port }
    target := call.target ++ pathText uri.path
    parameters }

/-- What is made of the method and the URL.  The URL is read up to its first NUL, and one that is
not understood is passed over. -/
def requestOf (method : HttpMethod) (url : Bytes) : Except Exn HttpRequest :=
  match parse (url.takeWhile (· ≠ 0)) with
  | some uri => fillRequest { method } uri
  | none => pure { method }

/-- `CreateRequest`. -/
def createRequest (requestLine : Bytes) : Except Exn HttpRequest :=
  match reSplitBlanks requestLine with
  | [method, url] => requestOf (parseMethod method) url
  | _ => .error (.instinct ("invalid request line: " ++ String.ofList (letters requestLine)))

/-! ### What should come back -/

/-- A request for a plain URL: the host and the path have no reserved characters. -/
structure Plain (request : HttpRequest) : Prop where
  protocol : request.endpoint.protocol ≠ .unspecified
  host : ∀ c ∈ request.endpoint.host, isUnreserved c = true
  port : 1 ≤ request.endpoint.port ∧ request.endpoint.port ≤ 65535
  target : ∃ path : List Bytes,
    (∀ segment ∈ path, ∀ c ∈ segment, isUnreserved c = true) ∧ request.target = pathText path

/-- The endpoint, the target and the parameters are read from the URL as they were written. -/
def ReadsBack (request : HttpRequest) : Prop :=
  ∃ call, createRequest (ascii "GET " ++ createUrlString request) = .ok call ∧
    call.endpoint = request.endpoint ∧ call.target = request.target ∧
    ∀ key, call.parameters.find? key = request.parameters.find? key

/-- A character of a key that means itself in a query. -/
def isKeyChar (c : UInt8) : Bool := isQueryChar c && c ≠ ampersand && c ≠ equals

/-! ### Request lines -/

section Lines

variable {url : Bytes}

/-- The first part is what is in front of the first blank. -/
theorem splitOnP_eq {α : Type} (p : α → Bool) (s : List α) :
    ∃ rest, s.splitOnP p = s.takeWhile (fun c => !p c) :: rest ∧
      ((∀ c ∈ s, p c = false) → rest = []) := by
  have hfront : ∀ c ∈ s.takeWhile (fun c => !p c), p c = false := fun c hc => by
    have hkept := List.mem_takeWhile_imp hc
    rwa [Bool.not_eq_true'] at hkept
  rcases hdrop : s.dropWhile (fun c => !p c) with - | ⟨c, after⟩
  · have hall : s.takeWhile (fun c => !p c) = s :=
      List.takeWhile_eq_self_iff.mpr (List.dropWhile_eq_nil_iff.mp hdrop)
    rw [hall] at hfront
    exact ⟨[], by rw [hall, List.splitOnP_eq_singleton hfront], fun _ => rfl⟩
  · have hc : p c = true := by
      have hhead := List.head_dropWhile_not (fun c => !p c) (l := s) (by simp [hdrop])
      simpa [hdrop] using hhead
    have hsplit := List.splitOnP_append_cons_of_forall_mem hfront c hc after
    rw [← hdrop, List.takeWhile_append_dropWhile] at hsplit
    refine ⟨_, hsplit, fun hall => ?_⟩
    have hmem : c ∈ s := (List.dropWhile_suffix _).subset (hdrop ▸ List.mem_cons_self)
    rw [hall c hmem] at hc
    cases hc

/-- The method is read, and the URL up to its first blank. -/
theorem reSplitBlanks_get (hne : url.takeWhile (fun c => !isBlankByte c) ≠ []) :
    ∃ rest, reSplitBlanks (ascii "GET " ++ url)
        = ascii "GET" :: url.takeWhile (fun c => !isBlankByte c) :: rest ∧
      ((∀ c ∈ url, isBlankByte c = false) → rest = []) := by
  have hmethod : ∀ c ∈ ascii "GET", isBlankByte c = false := fun c hc =>
    @contains_eq_false isAlpha _ (by decide) c (List.all_eq_true.mp (by decide) c hc)
  have hsplit := List.splitOnP_append_cons_of_forall_mem hmethod ' '.toUInt8 (by decide) url
  have hline : ascii "GET " ++ url = ascii "GET" ++ ' '.toUInt8 :: url := rfl
  obtain ⟨rest, hrest, hnil⟩ := splitOnP_eq isBlankByte url
  refine ⟨rest.filter (· ≠ []), ?_, fun hall => by rw [hnil hall, List.filter_nil]⟩
  rw [reSplitBlanks, hline, hsplit, hrest]
  exact congrArg (ascii "GET" :: ·)
    (List.filter_cons_of_pos (p := fun part : Bytes => decide (part ≠ [])) (decide_eq_true hne))

theorem requestOf_of_createRequest {call : HttpRequest}
    (hne : url.takeWhile (fun c => !isBlankByte c) ≠ [])
    (h : createRequest (ascii "GET " ++ url) = .ok call) :
    requestOf .get (url.takeWhile fun c => !isBlankByte c) = .ok call := by
  obtain ⟨rest, hsplit, -⟩ := reSplitBlanks_get hne
  rw [createRequest, hsplit] at h
  rcases rest with - | ⟨part, rest⟩
  · exact h
  · cases h

/-- A URL without blanks is read as a whole. -/
theorem createRequest_get (hne : url ≠ []) (hall : ∀ c ∈ url, isBlankByte c = false) :
    createRequest (ascii "GET " ++ url) = requestOf .get url := by
  have hkept : url.takeWhile (fun c => !isBlankByte c) = url :=
    List.takeWhile_eq_self_iff.mpr fun c hc => by rw [hall c hc]; rfl
  obtain ⟨rest, hsplit, hnil⟩ := @reSplitBlanks_get url (by rwa [hkept])
  rw [createRequest, hsplit, hnil hall, hkept]
  rfl

end Lines

/-! ### The URL of a request -/

section Urls

variable {request : HttpRequest} {tail : Bytes}

theorem isDigit_toUInt8 {c : Char} (h : c.isDigit = true) :
    isDigit c.toUInt8 = true ∧ Char.ofNat c.toUInt8.toNat = c := by
  have hbounds : 48 ≤ c.toNat ∧ c.toNat ≤ 57 := Char.isDigit_iff_toNat.mp h
  have hvalue : c.toUInt8.toNat = c.toNat := by
    rw [← Char.toUInt8_val, UInt32.toNat_toUInt8]
    exact Nat.mod_eq_of_lt (by have : c.val.toNat = c.toNat := rfl; omega)
  refine ⟨?_, by rw [hvalue, Char.ofNat_toNat]⟩
  have hends : ('0'.toUInt8).toNat = 48 ∧ ('9'.toUInt8).toNat = 57 := by decide
  simp only [isDigit, Bool.and_eq_true, decide_eq_true_eq, UInt8.le_iff_toNat_le]
  omega

/-- A port is printed in digits, which are read as what they were. -/
theorem stoi_port {port : Int} (h : 1 ≤ port ∧ port ≤ 65535) :
    (∀ c ∈ ascii (toString port), isDigit c = true) ∧ ascii (toString port) ≠ [] ∧
      stoi (letters (ascii (toString port))) = .ok port := by
  obtain ⟨n, rfl⟩ := Int.eq_ofNat_of_zero_le (show 0 ≤ port by omega)
  have htext : (toString (n : Int)).toList = Nat.toDigits 10 n := String.toList_ofList
  have hdigits : ∀ c ∈ Nat.toDigits 10 n, c.isDigit = true := fun c hc =>
    Nat.isDigit_of_mem_toDigits (by decide) (by decide) hc
  have hne : Nat.toDigits 10 n ≠ [] := List.ne_nil_of_length_pos Nat.length_toDigits_pos
  have hback : letters (ascii (toString (n : Int))) = Nat.toDigits 10 n := by
    rw [letters, ascii, htext, List.map_map]
    have hsame : ∀ c ∈ Nat.toDigits 10 n, Char.ofNat c.toUInt8.toNat = c := fun c hc =>
      (isDigit_toUInt8 (hdigits c hc)).2
    exact (List.map_congr_left hsame).trans (List.map_id' _)
  refine ⟨fun c hc => ?_, ?_, ?_⟩
  · rw [ascii, htext] at hc
    obtain ⟨d, hd, rfl⟩ := List.mem_map.mp hc
    exact (isDigit_toUInt8 (hdigits d hd)).1
  · rwa [ascii, htext, Ne, List.map_eq_nil_iff]
  · rw [hback, stoi_digits hne hdigits, Nat.ofDigitChars_ten_toDigits, if_pos (by omega)]

theorem urlWith_eq (h : Plain request) (tail : Bytes) :
    urlWith request tail = protocolText request.endpoint.protocol ++ (ascii "://" ++
      (request.endpoint.host ++ ':'.toUInt8 :: ascii (toString request.endpoint.port) ++
        (request.target ++ tail))) := by
  have hport : request.endpoint.port ≠ 0 := by have := h.port; omega
  rw [urlWith, if_neg hport]

theorem isAlpha_protocolText (protocol : HttpProtocol) :
    ∀ c ∈ protocolText protocol, isAlpha c = true :=
  List.all_eq_true.mp (by cases protocol <;> decide)

theorem isUnreserved_of_isAlpha {c : UInt8} (h : isAlpha c = true) : isUnreserved c = true := by
  rw [isUnreserved, h]
  rfl

theorem isUnreserved_of_isDigit {c : UInt8} (h : isDigit c = true) : isUnreserved c = true := by
  rw [isUnreserved, h, Bool.or_true]
  rfl

/-- Characters are kept in front of the query if a URL has none of the others there. -/
theorem takeWhile_urlWith (h : Plain request) {p : UInt8 → Bool}
    (hp : ∀ c, isUnreserved c = true → p c = true) (hcolon : p ':'.toUInt8 = true)
    (hslash : p '/'.toUInt8 = true) (tail : Bytes) :
    (urlWith request tail).takeWhile p = urlWith request (tail.takeWhile p) := by
  obtain ⟨path, hpath, htarget⟩ := h.target
  have hmarks : ∀ c ∈ ascii "://", p c = true := by
    intro c hc
    have hlist : ascii "://" = [':'.toUInt8, '/'.toUInt8, '/'.toUInt8] := rfl
    simp only [hlist, List.mem_cons, List.not_mem_nil, or_false] at hc
    rcases hc with rfl | rfl | rfl
    · exact hcolon
    · exact hslash
    · exact hslash
  have hauthority : ∀ c ∈ request.endpoint.host ++ ':'.toUInt8 ::
      ascii (toString request.endpoint.port), p c = true := by
    intro c hc
    rcases List.mem_append.mp hc with hc | hc
    · exact hp c (h.host c hc)
    · rcases List.mem_cons.mp hc with rfl | hc
      · exact hcolon
      · exact hp c (isUnreserved_of_isDigit ((stoi_port h.port).1 c hc))
  have htext : ∀ c ∈ request.target, p c = true := by
    intro c hc
    rw [htarget] at hc
    obtain ⟨segment, hsegment, hc⟩ := List.mem_flatMap.mp hc
    rcases List.mem_cons.mp hc with rfl | hc
    · exact hslash
    · exact hp c (hpath segment hsegment c hc)
  rw [urlWith_eq h, urlWith_eq h, List.takeWhile_append_of_pos fun c hc =>
      hp c (isUnreserved_of_isAlpha (isAlpha_protocolText _ c hc)),
    List.takeWhile_append_of_pos hmarks, List.takeWhile_append_of_pos hauthority,
    List.takeWhile_append_of_pos htext]

/-- What is made of the URL of a request: its endpoint and its target come back, and its parameters
are what is read from its query. -/
theorem requestOf_urlWith (h : Plain request) {method : HttpMethod} {kept : Bytes}
    (hkept : tail.takeWhile (· ≠ 0) = kept)
    (htail : ∀ c ∈ kept.head?, (ascii "?#").contains c = true) :
    requestOf method (urlWith request tail) =
      if isText isQueryChar (parseTail kept).1 && isText isQueryChar (parseTail kept).2 then
        (parseQueryParameters (parseTail kept).1).map fun parameters =>
          { endpoint := request.endpoint, method, target := request.target, parameters }
      else .ok { method } := by
  obtain ⟨path, hpath, htarget⟩ := h.target
  obtain ⟨hdigits, hne, hport⟩ := stoi_port h.port
  have hurl : (urlWith request tail).takeWhile (· ≠ 0) = urlWith request kept := by
    have hunreserved : ∀ c : UInt8, isUnreserved c = true → decide (c ≠ 0) = true := by
      rintro c hc
      refine decide_eq_true ?_
      rintro rfl
      exact absurd hc (by decide)
    rw [takeWhile_urlWith h hunreserved (by decide) (by decide), hkept]
  have hscheme : isScheme (protocolText request.endpoint.protocol) = true := by
    rcases hprotocol : request.endpoint.protocol with - | - | -
    · exact absurd hprotocol h.protocol
    · decide
    · decide
  have hprotocol : (schemeDefaults { method } (protocolText request.endpoint.protocol)).1
      = request.endpoint.protocol := by
    rcases hprotocol : request.endpoint.protocol with - | - | -
    · exact absurd hprotocol h.protocol
    · rfl
    · rfl
  have hparse := @parse_url _ _ _ _ path hscheme (isAlpha_protocolText _) h.host hdigits hpath htail
  rw [requestOf, hurl, urlWith_eq h, htarget, hparse]
  by_cases htext : (isText isQueryChar (parseTail kept).1 && isText isQueryChar (parseTail kept).2)
      = true
  · rw [if_pos htext, if_pos htext]
    simp only [fillRequest, hprotocol, if_neg hne, hport]
    rcases parseQueryParameters (parseTail kept).1 with e | parameters
    · rfl
    · rfl
  · rw [if_neg htext, if_neg htext]
    rfl

end Urls

/-! ### The query of a request -/

section Queries

variable {entries : List (Bytes × Bytes)}

/-- The keys mean themselves in a query. -/
def KeysPlain (entries : List (Bytes × Bytes)) : Prop :=
  ∀ entry ∈ entries, ∀ c ∈ entry.1, isKeyChar c = true

theorem isKeyChar_iff {c : UInt8} :
    isKeyChar c = true ↔ isQueryChar c = true ∧ c ≠ ampersand ∧ c ≠ equals := by
  rw [isKeyChar, Bool.and_eq_true, Bool.and_eq_true, decide_eq_true_eq, decide_eq_true_eq,
    and_assoc]

theorem mark_notMem_escape {mark : UInt8} (hreserved : isUnreserved mark = false)
    (hpercent : mark ≠ percent) (v : Bytes) : mark ∉ escape v := by
  intro hmem
  rcases mem_escape hmem with hunreserved | hsame
  · rw [hreserved] at hunreserved
    cases hunreserved
  · exact hpercent hsame

theorem ampersand_notMem_pair {entry : Bytes × Bytes} (h : ∀ c ∈ entry.1, isKeyChar c = true) :
    ampersand ∉ pairText entry := by
  intro hmem
  rcases List.mem_append.mp hmem with hmem | hmem
  · exact (isKeyChar_iff.mp (h _ hmem)).2.1 rfl
  · rcases List.mem_cons.mp hmem with hsame | hmem
    · exact absurd hsame (by decide)
    · exact mark_notMem_escape (by decide) (by decide) _ hmem

/-- What is written under plain keys is the text of a query. -/
theorem isText_queryString (h : KeysPlain entries) :
    isText isQueryChar (queryString entries) = true := by
  have hpair : ∀ entry ∈ entries, ∀ rest, isText isQueryChar rest = true →
      isText isQueryChar (pairText entry ++ rest) = true := by
    intro entry hentry rest hrest
    have hkey : ∀ c ∈ entry.1, isQueryChar c = true := fun c hc =>
      (isKeyChar_iff.mp (h entry hentry c hc)).1
    rw [pairText, List.append_assoc, isText_append_of_all (by decide) hkey, List.cons_append,
      isText_cons (by decide), isText_escape_append (fun _ => isQueryChar_of_isUnreserved)
      (by decide), hrest]
    rfl
  induction entries with
  | nil => rfl
  | cons entry entries ih =>
      have hfirst := hpair entry List.mem_cons_self
      rcases entries with - | ⟨next, entries⟩
      · have hlast := hfirst [] rfl
        rw [List.append_nil] at hlast
        rwa [queryString, List.map_singleton, List.intercalate_singleton]
      · have hrest := ih (fun e he => h e (List.mem_cons_of_mem _ he)) fun e he =>
          hpair e (List.mem_cons_of_mem _ he)
        rw [queryString, List.map_cons, List.map_cons, List.intercalate_cons_cons,
          List.append_assoc]
        refine hfirst _ ?_
        rw [List.singleton_append, isText_cons (by decide)]
        exact hrest

/-- The parts of the query are the pairs. -/
theorem reSplit_queryString (h : KeysPlain entries) (hne : entries ≠ []) :
    reSplit ampersand (queryString entries) = entries.map pairText := by
  refine reSplit_intercalate (fun part hpart => ?_) ?_
  · obtain ⟨entry, hentry, rfl⟩ := List.mem_map.mp hpart
    exact ampersand_notMem_pair (h entry hentry)
  · refine ⟨pairText (entries.getLast hne), ?_, ?_⟩
    · rw [List.getLast?_map, List.getLast?_eq_some_getLast hne]
      rfl
    · exact List.append_ne_nil_of_right_ne_nil _ (List.cons_ne_nil _ _)

/-- A pair is read as what it was, if it has a value. -/
theorem readParameter_pair {k v : Bytes} (hk : ∀ c ∈ k, isKeyChar c = true) (hv : v ≠ [])
    (m : OrderedMap Bytes Bytes) :
    readParameter m (pairText (k, v)) = .ok (m.set k v) := by
  have hsplit : reSplit equals (pairText (k, v)) = [k, escape v] := by
    have hjoin : pairText (k, v) = [equals].intercalate [k, escape v] := by
      rw [List.intercalate_cons_cons, List.intercalate_singleton, List.append_assoc]
      rfl
    rw [hjoin]
    refine reSplit_intercalate (fun part hpart => ?_) ⟨escape v, rfl, mt escape_eq_nil_iff.mp hv⟩
    simp only [List.mem_cons, List.not_mem_nil, or_false] at hpart
    rcases hpart with rfl | rfl
    · exact fun hmem => (isKeyChar_iff.mp (hk _ hmem)).2.2 rfl
    · exact mark_notMem_escape (by decide) (by decide) _
  have hpercent : percent ∉ k := fun hmem =>
    absurd (isKeyChar_iff.mp (hk _ hmem)).1 (by decide)
  rw [readParameter, hsplit]
  show Except.ok _ = _
  rw [unescape_of_notMem hpercent, unescape_escape]

/-- A pair without a value is not read. -/
theorem readParameter_noValue {k : Bytes} (hk : ∀ c ∈ k, isKeyChar c = true)
    (m : OrderedMap Bytes Bytes) : ∃ e, readParameter m (pairText (k, [])) = .error e := by
  have hequals : equals ∉ k := fun hmem => (isKeyChar_iff.mp (hk _ hmem)).2.2 rfl
  have hsplit : reSplit equals (pairText (k, [])) = [k] := by
    rw [pairText, reSplit, List.splitOn_append_cons_self_of_not_mem hequals]
    rfl
  rw [readParameter, hsplit]
  exact ⟨_, rfl⟩

theorem foldlM_readParameter (h : KeysPlain entries) (hvalues : ∀ entry ∈ entries, entry.2 ≠ [])
    (m : OrderedMap Bytes Bytes) :
    (entries.map pairText).foldlM readParameter m
      = .ok (entries.foldl (fun m e => m.set e.1 e.2) m) := by
  induction entries generalizing m with
  | nil => rfl
  | cons entry entries ih =>
      obtain ⟨hkey, hkeys⟩ := List.forall_mem_cons.mp h
      obtain ⟨hvalue, hvalues⟩ := List.forall_mem_cons.mp hvalues
      rw [List.map_cons, List.foldlM_cons, readParameter_pair hkey hvalue]
      exact ih hkeys hvalues _

/-- The query is read pair by pair. -/
theorem parseQueryParameters_queryString (h : KeysPlain entries) :
    parseQueryParameters (queryString entries)
      = (entries.map pairText).foldlM readParameter .empty := by
  by_cases hne : entries = []
  · rw [hne]
    rfl
  · have hquery : queryString entries ≠ [] := by
      intro hnil
      have hparts := reSplit_queryString h hne
      rw [hnil] at hparts
      have hmem : [] ∈ entries.map pairText := by
        rw [← hparts]
        exact List.mem_singleton_self _
      obtain ⟨entry, -, hentry⟩ := List.mem_map.mp hmem
      exact List.append_ne_nil_of_right_ne_nil _ (List.cons_ne_nil _ _) hentry
    rw [parseQueryParameters, if_neg hquery, reSplit_queryString h hne]

/-- Only pairs with values are read. -/
theorem values_of_foldlM (h : KeysPlain entries) {m m' : OrderedMap Bytes Bytes}
    (hread : (entries.map pairText).foldlM readParameter m = .ok m') :
    ∀ entry ∈ entries, entry.2 ≠ [] := by
  induction entries generalizing m with
  | nil => exact fun entry hentry => absurd hentry List.not_mem_nil
  | cons entry entries ih =>
      obtain ⟨hkey, hkeys⟩ := List.forall_mem_cons.mp h
      rw [List.map_cons, List.foldlM_cons, checks_eq_ok] at hread
      obtain ⟨m₁, hfirst, hrest⟩ := hread
      refine List.forall_mem_cons.mpr ⟨?_, ih hkeys hrest⟩
      obtain ⟨k, v⟩ := entry
      rintro rfl
      obtain ⟨e, he⟩ := readParameter_noValue hkey m
      rw [he] at hfirst
      cases hfirst

/-! ### Keys that are read -/

/-- A word without a mark does not reach across it. -/
theorem isInfix_append_cons {α : Type} {mark : α} {w s t : List α} (h : w <:+: s ++ mark :: t)
    (hmark : mark ∉ w) : w <:+: s ∨ w <:+: t := by
  have hcons : ∀ {u : List α}, mark ∉ u → u <+: mark :: t → u = [] := by
    intro u hu hstart
    rcases List.prefix_cons_iff.mp hstart with rfl | ⟨u', rfl, -⟩
    · rfl
    · exact absurd List.mem_cons_self hu
  rcases List.infix_append_iff.mp h with hleft | hright | ⟨u, u', rfl, hu, hu'⟩
  · exact .inl hleft
  · rcases List.infix_cons_iff.mp hright with hstart | hright
    · rw [hcons hmark hstart]
      exact .inl List.nil_infix
    · exact .inr hright
  · rw [hcons (fun hmem => hmark (List.mem_append_right _ hmem)) hu', List.append_nil]
    exact .inl hu.isInfix

/-- A word in front of a mark lies in front of the last mark. -/
theorem isInfix_of_concat {α : Type} {mark : α} {w s t : List α}
    (h : w ++ [mark] <:+: s ++ mark :: t) (hmark : mark ∉ t) : w <:+: s := by
  obtain ⟨front, back, hsplit⟩ := h
  have hsame : front ++ w ++ mark :: back = s ++ mark :: t := by
    rw [← hsplit]
    simp only [List.append_assoc, List.singleton_append]
  rcases List.append_eq_append_iff.mp hsame with ⟨rest, hs, -⟩ | ⟨rest, hs, ht⟩
  · exact ⟨front, rest, hs.symm⟩
  · rcases rest with - | ⟨c, rest⟩
    · rw [List.append_nil] at hs
      exact ⟨front, [], by rw [List.append_nil, hs]⟩
    · have hback := (List.cons.inj ht).2
      exact absurd (by rw [hback]; exact List.mem_append_right _ List.mem_cons_self) hmark

/-- What is read as a key lies in a key. -/
theorem exists_isInfix_key {k : Bytes} (h : k ++ [equals] <:+: queryString entries)
    (hk : ampersand ∉ k) : ∃ entry ∈ entries, k <:+: entry.1 := by
  have hmark : ampersand ∉ k ++ [equals] := fun hmem => by
    rcases List.mem_append.mp hmem with hmem | hmem
    · exact hk hmem
    · exact absurd (List.mem_singleton.mp hmem) (by decide)
  have hpair : ∀ {entry : Bytes × Bytes}, k ++ [equals] <:+: pairText entry → k <:+: entry.1 :=
    fun hwithin => isInfix_of_concat hwithin (mark_notMem_escape (by decide) (by decide) _)
  induction entries with
  | nil =>
      have hnil := List.infix_nil.mp h
      exact absurd hnil (List.append_ne_nil_of_right_ne_nil _ (List.cons_ne_nil _ _))
  | cons entry entries ih =>
      rcases entries with - | ⟨next, entries⟩
      · rw [queryString, List.map_singleton, List.intercalate_singleton] at h
        exact ⟨entry, List.mem_cons_self, hpair h⟩
      · rw [queryString, List.map_cons, List.map_cons, List.intercalate_cons_cons,
          List.append_assoc] at h
        rcases isInfix_append_cons h hmark with hfirst | hrest
        · exact ⟨entry, List.mem_cons_self, hpair hfirst⟩
        · obtain ⟨found, hfound, hwithin⟩ := ih hrest
          exact ⟨found, List.mem_cons_of_mem _ hfound, hwithin⟩

/-- What stands under a key was there before, or one of the parts has it. -/
theorem find?_foldlM_readParameter {parts : List Bytes} {m m' : OrderedMap Bytes Bytes}
    {key : Bytes} (h : parts.foldlM readParameter m = .ok m') (hkey : m'.find? key ≠ none) :
    m.find? key ≠ none ∨
      ∃ part ∈ parts, ∃ k v, reSplit equals part = [k, v] ∧ unescape k = key := by
  induction parts generalizing m with
  | nil => exact .inl (Except.ok.inj h ▸ hkey)
  | cons part parts ih =>
      rw [List.foldlM_cons, checks_eq_ok] at h
      obtain ⟨m₁, hfirst, hrest⟩ := h
      rcases ih hrest with hbefore | ⟨found, hfound, hread⟩
      · rw [readParameter] at hfirst
        split at hfirst
        · next k v hsplit =>
            by_cases hsame : unescape k = key
            · exact .inr ⟨part, List.mem_cons_self, k, v, hsplit, hsame⟩
            · rw [← Except.ok.inj hfirst, OrderedMap.find?_set_of_ne _ _ (Ne.symm hsame)] at hbefore
              exact .inl hbefore
        · cases hfirst
      · exact .inr ⟨found, List.mem_cons_of_mem _ hfound, hread⟩

/-- A key that is read stands in front of an equals sign in the query. -/
theorem exists_key_read {query key : Bytes} {m : OrderedMap Bytes Bytes}
    (h : parseQueryParameters query = .ok m) (hkey : m.find? key ≠ none) :
    ∃ k, k ++ [equals] <:+: query ∧ ampersand ∉ k ∧ equals ∉ k ∧ unescape k = key := by
  rw [parseQueryParameters] at h
  split at h
  · rw [← Except.ok.inj h] at hkey
    exact absurd rfl hkey
  · rcases find?_foldlM_readParameter h hkey with hempty | ⟨part, hpart, k, v, hsplit, hsame⟩
    · exact absurd rfl hempty
    · have hpart := mem_splitOn_of_mem_reSplit hpart
      have hk : k ∈ part.splitOn equals :=
        mem_splitOn_of_mem_reSplit (by rw [hsplit]; exact List.mem_cons_self)
      have hstart : k ++ [equals] <+: part := by
        have hjoin := @List.intercalate_splitOn _ part _ _ equals
        rcases splitOn_eq_reSplit equals part with hparts | hparts
        · rw [hparts, hsplit, List.intercalate_cons_cons] at hjoin
          exact ⟨_, hjoin⟩
        · rw [hparts, hsplit, List.cons_append, List.cons_append,
            List.intercalate_cons_cons] at hjoin
          exact ⟨_, hjoin⟩
      refine ⟨k, hstart.isInfix.trans (isInfix_of_mem_splitOn hpart), fun hmem => ?_,
        notMem_of_mem_splitOn hk, hsame⟩
      exact notMem_of_mem_splitOn hpart (hstart.subset (List.mem_append_left _ hmem))

/-- A key with a percent sign is decoded to a shorter one. -/
theorem length_unescape_key {query k : Bytes} (h : isText isQueryChar query = true)
    (hk : k ++ [equals] <:+: query) (hpercent : percent ∈ k) : (unescape k).length < k.length := by
  obtain ⟨front, back, hsplit⟩ := hk
  obtain ⟨u, rest, rfl⟩ := List.append_of_mem hpercent
  have hquery : query = front ++ u ++ percent :: (rest ++ equals :: back) := by
    rw [← hsplit]
    simp only [List.append_assoc, List.cons_append, List.nil_append]
  rw [hquery] at h
  obtain ⟨a, b, rest', hrest, ha, hb⟩ := digits_of_isText (by decide) _ (Nat.lt_succ_self _) h
  have hequals : isHex equals = false := by decide
  rcases rest with - | ⟨c, - | ⟨d, rest⟩⟩
  · rw [← (List.cons.inj hrest).1, hequals] at ha
    cases ha
  · rw [← (List.cons.inj (List.cons.inj hrest).2).1, hequals] at hb
    cases hb
  · obtain ⟨hc, hrest⟩ := List.cons.inj hrest
    obtain ⟨hd, -⟩ := List.cons.inj hrest
    rw [hc, hd]
    exact length_unescape_lt ha hb rest

/-- **Keys that are all read are plain.**  Otherwise the longest of them that is not plain would
have been read from a longer one. -/
theorem keysPlain_of_read {query : Bytes} {m : OrderedMap Bytes Bytes}
    (hquery : query <+: queryString entries) (htext : isText isQueryChar query = true)
    (hread : parseQueryParameters query = .ok m)
    (hfound : ∀ entry ∈ entries, m.find? entry.1 ≠ none) : KeysPlain entries := by
  have hlong : ∀ n, ∀ entry ∈ entries, query.length < entry.1.length + n →
      ∀ c ∈ entry.1, isKeyChar c = true := by
    intro n entry hentry hlt
    obtain ⟨k, hk, hampersand, hequals, hkey⟩ := exists_key_read hread (hfound entry hentry)
    induction n generalizing entry k with
    | zero =>
        have hle := hk.length_le
        have hdecoded := length_unescape_le k
        rw [hkey] at hdecoded
        rw [List.length_append] at hle
        omega
    | succ n ih =>
        obtain ⟨other, hother, hwithin⟩ :=
          exists_isInfix_key (hk.trans hquery.isInfix) hampersand
        have hpercent : percent ∉ k := fun hmem => by
          have hshort := length_unescape_key htext hk hmem
          have hle := hwithin.length_le
          rw [hkey] at hshort
          obtain ⟨k', hk', hampersand', hequals', hkey'⟩ :=
            exists_key_read hread (hfound other hother)
          have hother := ih other hother (by omega) k' hk' hampersand' hequals' hkey'
          exact absurd (hother _ (hwithin.subset hmem)) (by decide)
        rw [unescape_of_notMem hpercent] at hkey
        rw [← hkey]
        intro c hc
        refine isKeyChar_iff.mpr ⟨?_, fun hsame => hampersand (hsame ▸ hc), fun hsame =>
          hequals (hsame ▸ hc)⟩
        rcases mem_of_isText (fun _ => isQueryChar_of_isHex) htext
          (hk.subset (List.mem_append_left _ hc)) with rfl | hchar
        · exact absurd hc hpercent
        · exact hchar
  exact fun entry hentry => hlong (query.length + 1) entry hentry (by omega)

end Queries

/-! ### Requests that come back -/

section ReadsBack

variable {request : HttpRequest}

theorem urlWith_ne_nil (h : Plain request) (tail : Bytes) : urlWith request tail ≠ [] := by
  rw [urlWith_eq h]
  exact List.append_ne_nil_of_right_ne_nil _ (List.append_ne_nil_of_left_ne_nil (by decide) _)

theorem isBlankByte_eq_false {ok : UInt8 → Bool}
    (hok : (ascii " \t\n\x0b\x0c\r").all (fun c => !ok c) = true) {c : UInt8}
    (hc : ok c = true) : isBlankByte c = false :=
  contains_eq_false hok hc

theorem takeWhile_blank_urlWith (h : Plain request) (tail : Bytes) :
    (urlWith request tail).takeWhile (fun c => !isBlankByte c)
      = urlWith request (tail.takeWhile fun c => !isBlankByte c) := by
  refine takeWhile_urlWith h (fun c hc => ?_) (by decide) (by decide) tail
  rw [isBlankByte_eq_false (by decide) hc]
  rfl

/-- What is behind the question mark, up to a number sign. -/
theorem parseTail_question (s : Bytes) :
    (parseTail ('?'.toUInt8 :: s)).1 = s.takeWhile fun c => !(ascii "#").contains c := by
  rw [parseTail, upTo, List.takeWhile_cons_of_pos (by decide)]
  rfl

/-- If a request comes back, its parameters are read from the start of its query. -/
theorem query_of_readsBack (h : Plain request) (hne : request.parameters.entries ≠ [])
    (hback : ReadsBack request) :
    ∃ query m, query <+: queryString request.parameters.entries ∧
      isText isQueryChar query = true ∧ parseQueryParameters query = .ok m ∧
      ∀ key, m.find? key = request.parameters.find? key := by
  obtain ⟨call, hcall, hendpoint, -, hparameters⟩ := hback
  rw [createUrlString, if_neg hne] at hcall
  have hof := requestOf_of_createRequest
    (by rw [takeWhile_blank_urlWith h]; exact urlWith_ne_nil h _) hcall
  rw [takeWhile_blank_urlWith h, requestOf_urlWith h (by
    rw [List.takeWhile_cons_of_pos (by decide), List.takeWhile_cons_of_pos (by decide)])
    fun c hc => by rw [← Option.some.inj hc]; decide] at hof
  split at hof
  · next htext =>
      obtain ⟨m, hread, hcall⟩ := map_eq_ok.mp hof
      rw [parseTail_question] at hread htext
      refine ⟨_, m, ?_, (Bool.and_eq_true _ _ ▸ htext).1, hread, fun key => ?_⟩
      · exact (List.takeWhile_prefix _).trans
          ((List.takeWhile_prefix _).trans (List.takeWhile_prefix _))
      · rw [← hparameters key, ← hcall]
  · rw [← Except.ok.inj hof] at hendpoint
    exact absurd (congrArg Endpoint.protocol hendpoint).symm h.protocol

/-- A character behind the path. -/
def isTailChar (c : UInt8) : Bool := isQueryChar c || c = percent

theorem isTailChar_of_mem {entries : List (Bytes × Bytes)} (h : KeysPlain entries) :
    ∀ c ∈ '?'.toUInt8 :: queryString entries, isTailChar c = true := by
  intro c hc
  have htext : isText isQueryChar ('?'.toUInt8 :: queryString entries) = true := by
    rw [isText_cons (by decide), isText_queryString h]
    rfl
  rcases mem_of_isText (fun _ => isQueryChar_of_isHex) htext hc with rfl | hchar
  · decide
  · rw [isTailChar, hchar, Bool.true_or]

/-- Under plain keys nothing ends the query too early. -/
theorem exists_tail (h : KeysPlain request.parameters.entries) :
    ∃ tail, createUrlString request = urlWith request tail ∧
      (∀ c ∈ tail, isTailChar c = true) ∧
      (∀ c ∈ tail.head?, (ascii "?#").contains c = true) ∧
      parseTail tail = (queryString request.parameters.entries, []) := by
  by_cases hne : request.parameters.entries = []
  · refine ⟨[], by rw [createUrlString, if_pos hne], fun c hc => absurd hc List.not_mem_nil,
      fun c hc => absurd hc (Option.not_mem_none c), ?_⟩
    rw [hne]
    rfl
  · refine ⟨_, by rw [createUrlString, if_neg hne], isTailChar_of_mem h,
      fun c hc => by rw [← Option.some.inj hc]; decide, ?_⟩
    have hupTo := @upTo_append (ascii "#") _ [] (fun c hc => contains_eq_false (by decide)
      (isTailChar_of_mem h c hc)) fun c hc => absurd hc (Option.not_mem_none c)
    rw [List.append_nil] at hupTo
    rw [parseTail, hupTo]
    rfl

theorem isBlankByte_urlWith (h : Plain request) {tail : Bytes}
    (htail : ∀ c ∈ tail, isTailChar c = true) :
    ∀ c ∈ urlWith request tail, isBlankByte c = false := by
  have hall : tail.takeWhile (fun c => !isBlankByte c) = tail :=
    List.takeWhile_eq_self_iff.mpr fun c hc => by
      rw [isBlankByte_eq_false (by decide) (htail c hc)]
      rfl
  have hkept := takeWhile_blank_urlWith h tail
  rw [hall, List.takeWhile_eq_self_iff] at hkept
  exact fun c hc => by simpa using hkept c hc

/-- Under plain keys the whole query is read. -/
theorem createRequest_url (h : Plain request) (hkeys : KeysPlain request.parameters.entries) :
    createRequest (ascii "GET " ++ createUrlString request) =
      (parseQueryParameters (queryString request.parameters.entries)).map fun parameters =>
        { endpoint := request.endpoint, target := request.target, parameters } := by
  obtain ⟨tail, hurl, htail, hhead, hparts⟩ := exists_tail hkeys
  have hzero : tail.takeWhile (· ≠ 0) = tail :=
    List.takeWhile_eq_self_iff.mpr fun c hc => by
      refine decide_eq_true ?_
      rintro rfl
      exact absurd (htail 0 hc) (by decide)
  rw [hurl, createRequest_get (urlWith_ne_nil h tail) (isBlankByte_urlWith h htail),
    requestOf_urlWith h hzero hhead, hparts, isText_queryString hkeys]
  rfl

/-- **Main result.**  A plain request comes back from its URL if and only if no value is empty and
all keys are made of characters that mean themselves in a query. -/
theorem requestReadsBack_iff (h : Plain request) :
    ReadsBack request ↔ ∀ entry ∈ request.parameters.entries,
      entry.2 ≠ [] ∧ ∀ c ∈ entry.1, isKeyChar c = true := by
  constructor
  · intro hback
    have hkeys : KeysPlain request.parameters.entries := by
      by_cases hne : request.parameters.entries = []
      · intro entry hentry
        rw [hne] at hentry
        exact absurd hentry List.not_mem_nil
      · obtain ⟨query, m, hquery, htext, hread, hsame⟩ := query_of_readsBack h hne hback
        refine keysPlain_of_read hquery htext hread fun entry hentry => ?_
        rw [hsame, OrderedMap.find?_eq_some_iff.mpr hentry]
        exact Option.some_ne_none _
    obtain ⟨call, hcall, -⟩ := hback
    rw [createRequest_url h hkeys, parseQueryParameters_queryString hkeys] at hcall
    obtain ⟨m, hread, -⟩ := map_eq_ok.mp hcall
    exact fun entry hentry => ⟨values_of_foldlM hkeys hread entry hentry, hkeys entry hentry⟩
  · intro hplain
    have hkeys : KeysPlain request.parameters.entries := fun entry hentry => (hplain entry hentry).2
    have hcall := createRequest_url h hkeys
    rw [parseQueryParameters_queryString hkeys,
      foldlM_readParameter hkeys fun entry hentry => (hplain entry hentry).1] at hcall
    refine ⟨_, hcall, rfl, rfl, fun key => Option.ext fun v => ?_⟩
    have hread := @OrderedMap.find?_foldl_set _ _ _ _ request.parameters.nodup .empty key v
    rw [OrderedMap.find?_empty] at hread
    refine hread.trans ?_
    rw [OrderedMap.find?_eq_some_iff]
    refine or_iff_left ?_
    rintro ⟨-, hempty⟩
    cases hempty

/-- A request with a parameter that has a value. -/
theorem readsBack_valued :
    ReadsBack { endpoint := { protocol := .http, host := ascii "h", port := 80 }
                target := ascii "/s"
                parameters := OrderedMap.empty.set (ascii "q") (ascii "a&b") } := by
  have hunreserved : ∀ word ∈ [ascii "h", ascii "s"], ∀ c ∈ word, isUnreserved c = true := by
    intro word hword
    have hall : [ascii "h", ascii "s"].all (·.all isUnreserved) = true := by decide
    exact List.all_eq_true.mp (List.all_eq_true.mp hall word hword)
  refine (requestReadsBack_iff ⟨by decide, hunreserved _ List.mem_cons_self, by decide,
    [ascii "s"], fun segment hsegment => ?_, rfl⟩).mpr fun entry hentry => ?_
  · exact hunreserved segment (List.mem_cons_of_mem _ hsegment)
  · obtain rfl : entry = (ascii "q", ascii "a&b") := List.mem_singleton.mp hentry
    exact ⟨by decide, List.all_eq_true.mp (by decide)⟩

/-- A parameter without a value does not come back. -/
theorem noValue_not_readsBack :
    ¬ ReadsBack { endpoint := { protocol := .http, host := ascii "h", port := 80 }
                  target := ascii "/s"
                  parameters := OrderedMap.empty.set (ascii "q") [] } := by
  rintro ⟨call, hcall, -⟩
  cases hcall

end ReadsBack

end Instinct.HttpRequests

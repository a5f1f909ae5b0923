import Cnet.Base.Format
import Cnet.Net.Http.Encoding

/-!
# Taking a URL apart

`parseURL` looks for each part of a URL from the end of the part before it. It knows one
scheme only, reads the port with its colon, looks for a fragment behind a query only, and
asks the resolver in an `assert`. `decomposes_iff` says which URLs come out right anyway.
-/

namespace Cnet.Net.Http

open Cnet.Base (digitsValue)

def slash : Byte := 47
def hash : Byte := 35

/-- An IPv4 socket address, the port in host order. -/
structure InetAddress where
  sin_port : UInt16
  sin_addr : UInt32
deriving DecidableEq, Repr

/-- `INADDR_ANY` -/
def kInaddrAny : UInt32 := 0

/-- The libraries that a URL is given to. -/
structure UrlEnv where
  /-- `boost::lexical_cast<int>`; `none` is a `bad_lexical_cast`. -/
  lexical_cast : Bytes → Option Int
  /-- `gethostbyname_r`: the first address of the host. -/
  gethostbyname : Bytes → Option UInt32

/-- `InetAddress::resolve`; `none` if it returns false. -/
def InetAddress.resolve (env : UrlEnv) (hostname : Bytes) (out : InetAddress) :
    Option InetAddress :=
  (env.gethostbyname (cString hostname)).map fun address => { out with sin_addr := address }

/-- `setScheme`: both texts it knows are the same. -/
def HttpUri.setScheme (version : Bytes) (uri : HttpUri) : HttpUri :=
  if version = ascii "http" then { uri with scheme_ := .kHttp }
  else if version = ascii "http" then { uri with scheme_ := .kHttps }
  else uri

def endOfAuthority : Bytes → Nat
  | [] => 0
  | b :: s => if b = question ∨ b = hash ∨ b = slash then 0 else endOfAuthority s + 1

def parsePort (env : UrlEnv) (s : Bytes) : Int := (env.lexical_cast s).getD (-1)

/-- `parse_authority`: the text of the port begins with the colon. -/
def parseAuthority (env : UrlEnv) (s : Bytes) (uri : HttpUri) : HttpUri :=
  let port := find colon s
  if port = s.length then { uri with port_ := -1, host_ := s.take port }
  else { uri with port_ := parsePort env (s.drop port), host_ := s.take port }

/-- The part of `parseURL` that fills in `uri`, from `authority` on. -/
def parseRest (env : UrlEnv) (authority : Bytes) (uri : HttpUri) : HttpUri :=
  let path := endOfAuthority authority
  let uri := parseAuthority env (authority.take path) uri
  let path := authority.drop path
  let query := path.drop (find question path)
  let uri :=
    { uri with
      path_ := path.take (find question path)
      query_ := query.take (find hash query)
      fragment_ := query.drop (find hash query) }
  let uri :=
    if uri.port_ = -1 then { uri with port_ := if uri.scheme_ = .kHttp then 80 else 443 } else uri
  if uri.path_ = [] then { uri with path_ := ascii "/" } else uri

/-- The part of `parseURL` that makes `addr`. With `NDEBUG` the assertion is not evaluated,
and without it a host that is not found ends the program. -/
def serverAddress (env : UrlEnv) (ndebug : Bool) (uri : HttpUri) : Option InetAddress :=
  let addr : InetAddress := { sin_port := UInt16.ofInt uri.port_, sin_addr := kInaddrAny }
  if ndebug then some addr else addr.resolve env uri.host_

/-- `HttpRequest::parseURL`: the request and its `serverAddr_`. The flags, the scheme and the
port of `uri` are what is in `memory`. `none` is a failed assertion, or a pointer past the end. -/
def parseURL (env : UrlEnv) (ndebug : Bool) (memory : HttpUri) (url : Bytes) (method : Method) :
    Option (HttpRequest × InetAddress) :=
  let uri : HttpUri :=
    { flags_ := memory.flags_, scheme_ := memory.scheme_, port_ := memory.port_, path_ := [255] }
  let colon := find colon url
  let uri := uri.setScheme (url.take colon)
  if url.length < colon + 3 then none
  else if ndebug = false ∧ (url.drop (colon + 1)).take 2 ≠ ascii "//" then none
  else
    let uri := parseRest env (url.drop (colon + 3)) uri
    (serverAddress env ndebug uri).map fun addr =>
      ({ method_ := method, uri_ := uri
         headers_ := StringMap.assign (ascii "Host") uri.host_ [] }, addr)

/-! ## URLs -/

/-- The parts of a URL. -/
structure UrlParts where
  https : Bool
  host : Bytes
  port : Option Bytes
  path : Bytes
  query : Option Bytes
  fragment : Option Bytes
  host_ne : host ≠ []
  host_bytes : ∀ b ∈ host, b ≠ colon ∧ b ≠ slash ∧ b ≠ question ∧ b ≠ hash
  port_digits : ∀ text ∈ port, ∀ b ∈ text, 48 ≤ b ∧ b ≤ 57
  port_range : ∀ text ∈ port, 1 ≤ digitsValue text ∧ digitsValue text ≤ 65535
  path_slash : ∀ b ∈ path.head?, b = slash
  path_bytes : ∀ b ∈ path, b ≠ question ∧ b ≠ hash
  query_bytes : ∀ text ∈ query, hash ∉ text

namespace UrlParts

variable (p : UrlParts)

def schemeText : Bytes := if p.https then ascii "https" else ascii "http"

def portText : Bytes := p.port.elim [] (colon :: ·)

/-- The query with its question mark. -/
def queryText : Bytes := p.query.elim [] (question :: ·)

def fragmentText : Bytes := p.fragment.elim [] (hash :: ·)

def text : Bytes :=
  p.schemeText ++ ascii "://" ++
    (p.host ++ p.portText ++ (p.path ++ (p.queryText ++ p.fragmentText)))

def scheme : Scheme := if p.https then .kHttps else .kHttp

/-- The port that is meant. -/
def portNumber : Nat := p.port.elim (if p.https then 443 else 80) digitsValue

end UrlParts

/-- What is to come of a URL, if `answer` is the address of its host. -/
structure Decomposed (p : UrlParts) (answer : UInt32) (request : HttpRequest)
    (serverAddr : InetAddress) : Prop where
  scheme : request.uri_.scheme_ = p.scheme
  host : request.uri_.host_ = p.host
  port : request.uri_.port_ = p.portNumber
  path : request.uri_.path_ = if p.path = [] then ascii "/" else p.path
  query : request.uri_.query_ = p.queryText
  fragment : request.uri_.fragment_ = p.fragmentText
  serverAddr : serverAddr = { sin_port := UInt16.ofNat p.portNumber, sin_addr := answer }

/-- The parts come out, the same with `NDEBUG` and without. -/
def Decomposes (env : UrlEnv) (p : UrlParts) (answer : UInt32) : Prop :=
  ∀ memory method, ∃ request serverAddr, Decomposed p answer request serverAddr ∧
    ∀ ndebug, parseURL env ndebug memory p.text method = some (request, serverAddr)

/-- A number has digits and a sign in its text, and nothing else. -/
def CastsNumbers (env : UrlEnv) : Prop :=
  ∀ text n, env.lexical_cast text = some n → ∀ b ∈ text, 48 ≤ b ∧ b ≤ 57 ∨ b = 43 ∨ b = 45

/-! ## Searching -/

/-- A search stops where the text that it passes over ends. -/
theorem findIdx_append_of_stop {stop : Byte → Bool} {front rest : Bytes}
    (hfront : ∀ b ∈ front, stop b = false) (hrest : ∀ b ∈ rest.head?, stop b = true) :
    (front ++ rest).findIdx stop = front.length := by
  have hpass : front.findIdx stop = front.length := List.findIdx_eq_length.mpr hfront
  rw [List.findIdx_append, hpass, if_neg (Nat.lt_irrefl _)]
  cases rest with
  | nil => exact Nat.zero_add _
  | cons b rest =>
    rw [List.findIdx_cons, hrest b rfl]
    exact Nat.zero_add _

theorem find_append_of_stop {b : Byte} {front rest : Bytes} (hfront : b ∉ front)
    (hrest : ∀ x ∈ rest.head?, x = b) : find b (front ++ rest) = front.length :=
  findIdx_append_of_stop (fun _ hx => decide_eq_false fun heq => hfront (heq ▸ hx))
    fun x hx => decide_eq_true (hrest x hx)

theorem endOfAuthority_eq (s : Bytes) :
    endOfAuthority s = s.findIdx fun b => decide (b = question ∨ b = hash ∨ b = slash) := by
  induction s with
  | nil => rfl
  | cons b s ih =>
    rw [endOfAuthority, List.findIdx_cons, ih]
    by_cases hstop : b = question ∨ b = hash ∨ b = slash
    · rw [if_pos hstop, decide_eq_true hstop]
      rfl
    · rw [if_neg hstop, decide_eq_false hstop]
      rfl

namespace UrlParts

variable (p : UrlParts)

/-- A text that is absent or begins with `b` stops the search for `b`. -/
theorem head_elim {b : Byte} (part : Option Bytes) :
    ∀ x ∈ (part.elim [] (b :: ·)).head?, x = b := by
  cases part with
  | none => exact fun x hx => absurd hx (Option.not_mem_none x)
  | some text => exact fun x hx => (Option.mem_some.mp hx).symm

/-- What follows the authority. -/
def rest : Bytes := p.path ++ (p.queryText ++ p.fragmentText)

theorem head_append {stop : Byte → Prop} {front rest : Bytes} (hfront : ∀ b ∈ front.head?, stop b)
    (hrest : ∀ b ∈ rest.head?, stop b) : ∀ b ∈ (front ++ rest).head?, stop b := by
  cases front with
  | nil => exact hrest
  | cons b front => exact hfront

theorem head_rest : ∀ b ∈ p.rest.head?, b = question ∨ b = hash ∨ b = slash :=
  head_append (fun b hb => .inr (.inr (p.path_slash b hb)))
    (head_append (fun b hb => .inl (head_elim p.query b hb))
      fun b hb => .inr (.inl (head_elim p.fragment b hb)))

theorem authority_bytes :
    ∀ b ∈ p.host ++ p.portText, ¬ (b = question ∨ b = hash ∨ b = slash) := by
  intro b hb
  rcases List.mem_append.mp hb with hb | hb
  · obtain ⟨-, hslash, hquestion, hhash⟩ := p.host_bytes b hb
    rintro (h | h | h)
    exacts [hquestion h, hhash h, hslash h]
  · rw [portText] at hb
    cases hport : p.port with
    | none => exact absurd (hport ▸ hb) List.not_mem_nil
    | some text =>
      rw [hport] at hb
      rcases List.mem_cons.mp hb with rfl | hb
      · decide
      · obtain ⟨hlo, hhi⟩ := p.port_digits text hport b hb
        rintro (rfl | rfl | rfl)
        · exact absurd hhi (by decide)
        · exact absurd hlo (by decide)
        · exact absurd hlo (by decide)

theorem endOfAuthority_append :
    endOfAuthority (p.host ++ p.portText ++ p.rest) = (p.host ++ p.portText).length := by
  rw [endOfAuthority_eq]
  exact findIdx_append_of_stop (fun b hb => decide_eq_false (p.authority_bytes b hb))
    fun b hb => decide_eq_true (p.head_rest b hb)

/-- The host comes out, and the port never: its text has the colon in it. -/
theorem parseAuthority_text {env : UrlEnv} (hcast : CastsNumbers env) (uri : HttpUri) :
    parseAuthority env (p.host ++ p.portText) uri = { uri with port_ := -1, host_ := p.host } := by
  have hcolon : colon ∉ p.host := fun hmem => (p.host_bytes colon hmem).1 rfl
  have hfind : find colon (p.host ++ p.portText) = p.host.length :=
    find_append_of_stop hcolon (head_elim p.port)
  rw [parseAuthority, hfind, List.take_left, List.drop_left]
  split_ifs with hend
  · rfl
  · have hport : parsePort env p.portText = -1 := by
      rw [parsePort]
      cases hvalue : env.lexical_cast p.portText with
      | none => rfl
      | some n =>
        rw [portText] at hend hvalue
        cases hport : p.port with
        | none =>
          rw [hport] at hend
          exact absurd (congrArg List.length (List.append_nil p.host).symm) hend
        | some text =>
          rw [hport] at hvalue
          have hdigit := hcast _ n hvalue colon List.mem_cons_self
          exact absurd hdigit (by decide)
    rw [hport]

/-! ## What comes of a URL -/

/-- The text that is taken for the path: all up to a question mark. -/
def parsedPath : Bytes := p.rest.take (find question p.rest)

/-- The text that the query and the fragment are looked for in. -/
def parsedQuery : Bytes := p.rest.drop (find question p.rest)

/-- What comes of a URL: the scheme `https` leaves `memory` as it is. -/
def parsed (memory : HttpUri) : HttpUri :=
  let scheme := if p.https then memory.scheme_ else .kHttp
  { flags_ := memory.flags_
    scheme_ := scheme
    host_ := p.host
    port_ := if scheme = .kHttp then 80 else 443
    path_ := if p.parsedPath = [] then ascii "/" else p.parsedPath
    query_ := p.parsedQuery.take (find hash p.parsedQuery)
    fragment_ := p.parsedQuery.drop (find hash p.parsedQuery) }

def request (memory : HttpUri) (method : Method) : HttpRequest :=
  { method_ := method, uri_ := p.parsed memory
    headers_ := StringMap.assign (ascii "Host") p.host [] }

theorem parseRest_text {env : UrlEnv} (hcast : CastsNumbers env) (memory : HttpUri)
    (scheme : Scheme) (hscheme : scheme = if p.https then memory.scheme_ else .kHttp) (port : Int) :
    parseRest env (p.host ++ p.portText ++ p.rest)
      { flags_ := memory.flags_, scheme_ := scheme, port_ := port, path_ := [255] } =
        p.parsed memory := by
  rw [parseRest, p.endOfAuthority_append, List.take_left, List.drop_left,
    p.parseAuthority_text hcast]
  dsimp only
  rw [if_pos rfl, hscheme]
  by_cases hpath : p.rest.take (find question p.rest) = []
  · rw [if_pos hpath, parsed, parsedPath, if_pos hpath]
    rfl
  · rw [if_neg hpath, parsed, parsedPath, if_neg hpath]
    rfl

theorem text_eq : p.text =
    p.schemeText ++ colon :: (ascii "//" ++ (p.host ++ p.portText ++ p.rest)) := by
  rw [text, List.append_assoc]
  rfl

theorem setScheme_text (memory : HttpUri) (port : Int) :
    HttpUri.setScheme p.schemeText
        { flags_ := memory.flags_, scheme_ := memory.scheme_, port_ := port, path_ := [255] } =
      { flags_ := memory.flags_, scheme_ := if p.https then memory.scheme_ else .kHttp
        port_ := port, path_ := [255] } := by
  rw [schemeText]
  cases p.https with
  | false => rfl
  | true => rfl

/-- The request is the same however the program is built, its address is not. -/
theorem parseURL_text {env : UrlEnv} (hcast : CastsNumbers env) (ndebug : Bool) (memory : HttpUri)
    (method : Method) : parseURL env ndebug memory p.text method =
      (serverAddress env ndebug (p.parsed memory)).map fun addr =>
        (p.request memory method, addr) := by
  have hcolon : colon ∉ p.schemeText := by
    rw [schemeText]
    cases p.https with
    | false => decide
    | true => decide
  have hslashes (rest : Bytes) : (ascii "//" ++ rest).take 2 = ascii "//" := List.take_left' rfl
  have hdrop (rest : Bytes) : (ascii "//" ++ rest).drop 2 = rest := List.drop_left' rfl
  have hlen : ¬ p.text.length < p.schemeText.length + 3 := by
    have htwo : (ascii "//").length = 2 := rfl
    rw [p.text_eq, List.length_append, List.length_cons, List.length_append, htwo]
    omega
  have hfind : find colon p.text = p.schemeText.length := by
    rw [p.text_eq, find_append hcolon]
  have hafter : p.text.drop (p.schemeText.length + 1) =
      ascii "//" ++ (p.host ++ p.portText ++ p.rest) := by
    rw [p.text_eq, drop_append_cons]
  have hauthority : p.text.drop (p.schemeText.length + 3) = p.host ++ p.portText ++ p.rest := by
    rw [← hdrop (p.host ++ p.portText ++ p.rest), ← hafter, List.drop_drop]
  have hscheme : p.text.take p.schemeText.length = p.schemeText := by
    rw [p.text_eq, take_append_cons]
  rw [parseURL, hfind]
  dsimp only
  rw [if_neg hlen, hafter, hslashes, if_neg (fun h => h.2 rfl), hscheme, p.setScheme_text,
    hauthority, p.parseRest_text hcast memory _ rfl]
  rfl

/-- The path, the query and the fragment come apart if a query stands before the fragment. -/
theorem parsed_parts (h : p.fragment = none ∨ p.query ≠ none) :
    p.parsedPath = p.path ∧ p.parsedQuery = p.queryText ++ p.fragmentText := by
  have hquestion : question ∉ p.path := fun hmem => (p.path_bytes question hmem).1 rfl
  have hhead : ∀ b ∈ (p.queryText ++ p.fragmentText).head?, b = question := by
    rw [queryText, fragmentText]
    rcases h with h | h
    · rw [h]
      exact head_append (head_elim p.query) fun b hb => absurd hb (Option.not_mem_none b)
    · obtain ⟨text, htext⟩ := Option.ne_none_iff_exists'.mp h
      rw [htext]
      exact fun b hb => (Option.mem_some.mp hb).symm
  have hfind : find question p.rest = p.path.length := find_append_of_stop hquestion hhead
  rw [parsedPath, parsedQuery, hfind]
  exact ⟨List.take_left, List.drop_left⟩

theorem find_hash : find hash (p.queryText ++ p.fragmentText) = p.queryText.length := by
  refine find_append_of_stop (fun hmem => ?_) (head_elim p.fragment)
  rw [queryText] at hmem
  cases hquery : p.query with
  | none => exact absurd (hquery ▸ hmem) List.not_mem_nil
  | some text =>
    rw [hquery] at hmem
    rcases List.mem_cons.mp hmem with h | h
    · exact absurd h (by decide)
    · exact p.query_bytes text hquery h

theorem parsed_scheme (hhttps : p.https = false) (memory : HttpUri) :
    (p.parsed memory).scheme_ = .kHttp := by
  rw [parsed, hhttps]
  rfl

theorem portNumber_eq_eighty (hhttps : p.https = false)
    (hport : ∀ text ∈ p.port, digitsValue text = 80) : p.portNumber = 80 := by
  rw [portNumber, hhttps]
  cases hp : p.port with
  | none => rfl
  | some text => exact hport text hp

/-- Without a query, the fragment is taken for a part of the path. -/
theorem hash_mem_parsedPath (hquery : p.query = none) (hfragment : p.fragment ≠ none) :
    hash ∈ p.parsedPath := by
  obtain ⟨text, htext⟩ := Option.ne_none_iff_exists'.mp hfragment
  have hrest : p.rest = p.path ++ [hash] ++ text := by
    rw [rest, queryText, fragmentText, hquery, htext, List.append_assoc]
    rfl
  have hpass : ∀ b ∈ p.path ++ [hash], decide (b = question) = false := by
    intro b hb
    rcases List.mem_append.mp hb with hb | hb
    · exact decide_eq_false (p.path_bytes b hb).1
    · rw [List.mem_singleton.mp hb]
      rfl
  have hfind : (p.path ++ [hash]).length ≤ find question p.rest := by
    rw [hrest, find, List.findIdx_append, List.findIdx_eq_length.mpr hpass,
      if_neg (Nat.lt_irrefl _)]
    exact Nat.le_add_left _ _
  have hmem : hash ∈ p.rest.take (p.path ++ [hash]).length := by
    rw [hrest, List.take_left]
    exact List.mem_append_right _ List.mem_cons_self
  exact List.take_subset_take_left _ hfind hmem

end UrlParts

/-- What the parts are, if they come out right. -/
theorem Decomposes.decomposed {env : UrlEnv} {p : UrlParts} {answer : UInt32}
    (h : Decomposes env p answer) (hcast : CastsNumbers env) :
    Decomposed p answer (p.request {} .kGet)
      { sin_port := UInt16.ofInt (p.parsed {}).port_, sin_addr := kInaddrAny } := by
  obtain ⟨request, addr, hparts, hparse⟩ := h {} .kGet
  have hrun := hparse true
  rw [p.parseURL_text hcast] at hrun
  cases hrun
  exact hparts

namespace Decomposed

variable {p : UrlParts} {answer : UInt32} {method : Method} {addr : InetAddress}

/-- With `https`, the scheme that comes out is whatever the memory holds. -/
theorem http (h : Decomposed p answer (p.request {} method) addr) : p.https = false := by
  have hscheme : (if p.https then Scheme.kInvalidScheme else .kHttp) = p.scheme := h.scheme
  rw [UrlParts.scheme] at hscheme
  cases hp : p.https with
  | false => rfl
  | true =>
    rw [hp] at hscheme
    exact absurd hscheme (by decide)

/-- The port that comes out is the usual one. -/
theorem port_eq_eighty (h : Decomposed p answer (p.request {} method) addr) {text : Bytes}
    (htext : text ∈ p.port) : digitsValue text = 80 := by
  have hport : (p.parsed {}).port_ = p.portNumber := h.port
  rw [UrlParts.portNumber, Option.mem_def.mp htext, UrlParts.parsed, h.http] at hport
  exact (Int.ofNat.inj hport).symm

theorem query_of_fragment (h : Decomposed p answer (p.request {} method) addr) :
    p.fragment = none ∨ p.query ≠ none := by
  by_contra hno
  obtain ⟨hfragment, hquery⟩ := not_or.mp hno
  have hmem := p.hash_mem_parsedPath (not_not.mp hquery) hfragment
  have hpath : (if p.parsedPath = [] then ascii "/" else p.parsedPath) =
      if p.path = [] then ascii "/" else p.path := h.path
  rw [if_neg (List.ne_nil_of_mem hmem)] at hpath
  rw [hpath] at hmem
  split_ifs at hmem
  · exact absurd hmem (by decide)
  · exact (p.path_bytes hash hmem).2 rfl

end Decomposed

/-- The URLs that come apart right. -/
theorem decomposed_request {p : UrlParts} (hhttps : p.https = false)
    (hport : ∀ text ∈ p.port, digitsValue text = 80)
    (hfragment : p.fragment = none ∨ p.query ≠ none) (memory : HttpUri) (method : Method) :
    Decomposed p kInaddrAny (p.request memory method)
      { sin_port := 80, sin_addr := kInaddrAny } := by
  obtain ⟨hpath, hquery⟩ := p.parsed_parts hfragment
  have hnumber := p.portNumber_eq_eighty hhttps hport
  have hscheme := p.parsed_scheme hhttps memory
  refine ⟨hscheme.trans ?_, rfl, ?_, ?_, ?_, ?_, ?_⟩
  · rw [UrlParts.scheme, hhttps]
    rfl
  · rw [hnumber]
    exact if_pos hscheme
  · exact congrArg (fun path => if path = [] then ascii "/" else path) hpath
  · show p.parsedQuery.take (find hash p.parsedQuery) = _
    rw [hquery, p.find_hash, List.take_left]
  · show p.parsedQuery.drop (find hash p.parsedQuery) = _
    rw [hquery, p.find_hash, List.drop_left]
  · rw [hnumber]
    rfl

/-- A URL comes apart right exactly if its scheme is `http`, its port the usual one, its
fragment behind a query, and the address of its host the one that stands for any. -/
theorem decomposes_iff {env : UrlEnv} (hcast : CastsNumbers env) {p : UrlParts} {answer : UInt32}
    (hresolves : env.gethostbyname (cString p.host) = some answer) :
    Decomposes env p answer ↔
      p.https = false ∧ (∀ text ∈ p.port, digitsValue text = 80) ∧
        (p.fragment = none ∨ p.query ≠ none) ∧ answer = kInaddrAny := by
  constructor
  · intro h
    have hparts := h.decomposed hcast
    have haddr := congrArg InetAddress.sin_addr hparts.serverAddr
    exact ⟨hparts.http, fun text htext => hparts.port_eq_eighty htext, hparts.query_of_fragment,
      haddr.symm⟩
  · rintro ⟨hhttps, hport, hfragment, rfl⟩ memory method
    have hparsedPort : (p.parsed memory).port_ = 80 := if_pos (p.parsed_scheme hhttps memory)
    have haddr (ndebug : Bool) : serverAddress env ndebug (p.parsed memory) =
        some { sin_port := 80, sin_addr := kInaddrAny } := by
      rw [serverAddress, hparsedPort]
      cases ndebug with
      | true => rfl
      | false => exact congrArg (Option.map _) hresolves
    refine ⟨p.request memory method, { sin_port := 80, sin_addr := kInaddrAny },
      decomposed_request hhttps hport hfragment memory method, fun ndebug => ?_⟩
    rw [p.parseURL_text hcast, haddr]
    rfl

/-- A reading of decimal numbers, and an address for `0.0.0.0` and for `localhost`. -/
def sampleEnv : UrlEnv where
  lexical_cast text :=
    if text ≠ [] ∧ text.all (fun b => decide (48 ≤ b ∧ b ≤ 57)) ∧ digitsValue text < 2147483648 then
      some (digitsValue text)
    else none
  gethostbyname hostname :=
    if hostname = ascii "0.0.0.0" then some 0
    else if hostname = ascii "localhost" then some 0x0100007f
    else none

theorem castsNumbers_sampleEnv : CastsNumbers sampleEnv := by
  intro text n hvalue b hb
  by_cases hdigits : text ≠ [] ∧ text.all (fun b => decide (48 ≤ b ∧ b ≤ 57)) ∧
      digitsValue text < 2147483648
  · exact .inl (forall_mem_of_all hdigits.2.1 b hb)
  · exact absurd ((if_neg hdigits).symm.trans hvalue) (Option.some_ne_none n).symm

def portUrl : UrlParts where
  https := false
  host := ascii "localhost"
  port := some (ascii "8080")
  path := ascii "/index.html"
  query := none
  fragment := none
  host_ne := by decide
  host_bytes := forall_mem_of_all rfl
  port_digits := fun text htext => Option.mem_some.mp htext ▸ forall_mem_of_all rfl
  port_range := by decide
  path_slash := fun b hb => (Option.mem_some.mp hb).symm
  path_bytes := forall_mem_of_all rfl
  query_bytes := fun text htext => absurd htext (Option.not_mem_none text)

theorem decomposes_iff_portUrl :
    Decomposes sampleEnv portUrl 0x0100007f ↔
      portUrl.https = false ∧ (∀ text ∈ portUrl.port, digitsValue text = 80) ∧
        (portUrl.fragment = none ∨ portUrl.query ≠ none) ∧ 0x0100007f = kInaddrAny :=
  decomposes_iff castsNumbers_sampleEnv (by decide)

/-- The port is lost. -/
theorem decomposes_fails_port : ¬ ∀ env p answer, CastsNumbers env →
    env.gethostbyname (cString p.host) = some answer → Decomposes env p answer := by
  intro h
  have hparts := (h sampleEnv portUrl 0x0100007f castsNumbers_sampleEnv (by decide)).decomposed
    castsNumbers_sampleEnv
  exact absurd hparts.port (by decide)

end Cnet.Net.Http

/-
`HttpServer::response` (server/src/httpserver.cpp): the header, the answer buffer, the loop that reads
the file, and `Socket::write` on the answer. `int`, `long`, `size_t` and the enumerations have 32 bits,
as on the board the server is installed on.

For a file that cannot be opened only the route is replaced: `content_length` stays uninitialised and
`fd` null, so the header announces a length that belongs to nothing and the body is copied from the
text of the route, past the end of the answer where the length is negative.
-/
import Mathlib.Tactic
import Td3.Lib.Buffer
import Td3.Lib.LittleEndian
import Td3.Server.Config

namespace Td3.Server

open Td3.CString Td3.Decimal
open Td3.Lib (Copy afterCopies leBytes leNat Holds)

/-! ## The types of a response -/

inductive HttpConn where
  | CLOSE
  | KEEP_ALIVE
deriving DecidableEq, Repr

inductive HttpCode where
  | OK
  | NOT_FOUND
  | BAD_REQUEST
deriving DecidableEq, Repr

inductive HttpMimeType where
  | HTML
  | FAVICON
  | JPG
  | JSON
  | CSS
  | TEXT
deriving DecidableEq, Repr

/-- The value of the enumeration. -/
def HttpMimeType.value : HttpMimeType → Nat
  | .HTML => 0
  | .FAVICON => 1
  | .JPG => 2
  | .JSON => 3
  | .CSS => 4
  | .TEXT => 5

/-- `http_conns`. -/
def httpConn : HttpConn → List UInt8
  | .CLOSE => ascii ['c', 'l', 'o', 's', 'e']
  | .KEEP_ALIVE => ascii ['k', 'e', 'e', 'p', '-', 'a', 'l', 'i', 'v', 'e']

/-- `http_codes`. -/
def httpCode : HttpCode → List UInt8
  | .OK => ascii ['2', '0', '0', ' ', 'O', 'K']
  | .NOT_FOUND => ascii ['4', '0', '4', ' ', 'N', 'o', 't', ' ', 'F', 'o', 'u', 'n', 'd']
  | .BAD_REQUEST => ascii ['4', '0', '0', ' ', 'B', 'a', 'd', ' ', 'R', 'e', 'q', 'u', 'e', 's', 't']

def charsetUtf8 : List UInt8 :=
  ascii [';', ' ', 'c', 'h', 'a', 'r', 's', 'e', 't', '=', 'u', 't', 'f', '-', '8']

/-- `http_mime_types`. -/
def httpMimeTypes : List (List UInt8) :=
  [List.flatten [ascii ['t', 'e', 'x', 't', '/', 'h', 't', 'm', 'l'], charsetUtf8],
    ascii ['i', 'm', 'a', 'g', 'e', '/', 'x', '-', 'i', 'c', 'o', 'n'],
    ascii ['i', 'm', 'a', 'g', 'e', '/', 'j', 'p', 'g'],
    List.flatten [ascii ['a', 'p', 'p', 'l', 'i', 'c', 'a', 't', 'i', 'o', 'n', '/', 'j', 's', 'o', 'n'], charsetUtf8],
    List.flatten [ascii ['t', 'e', 'x', 't', '/', 'c', 's', 's'], charsetUtf8],
    List.flatten [ascii ['t', 'e', 'x', 't', '/', 'p', 'l', 'a', 'i', 'n'], charsetUtf8]]

/-- `HttpResponse`, whose route is a string inside its array. -/
structure HttpResponse where
  route : List UInt8
  mimeType : HttpMimeType
  code : HttpCode
  conn : HttpConn
  fits : route.length < ROUTE_SIZE
  noNul : 0 ∉ route

def notFoundRoute : List UInt8 :=
  ascii ['/', 'e', 'r', 'r', 'o', 'r', 's', '/', 'n', 'o', 't', '_', 'f', 'o', 'u', 'n', 'd', '.', 'h', 't', 'm', 'l']
def maxClientsRoute : List UInt8 :=
  ascii ['/', 'e', 'r', 'r', 'o', 'r', 's', '/', 'm', 'a', 'x', '_', 'c', 'l', 'i', 'e', 'n', 't', 's', '.', 'h', 't',
    'm', 'l']
def indexRoute : List UInt8 := ascii ['/', 'i', 'n', 'd', 'e', 'x', '.', 'h', 't', 'm', 'l']

theorem notFoundRoute_fits : notFoundRoute.length < ROUTE_SIZE := by decide

theorem notFoundRoute_noNul : 0 ∉ notFoundRoute := by decide

theorem maxClientsRoute_fits : maxClientsRoute.length < ROUTE_SIZE := by decide

theorem maxClientsRoute_noNul : 0 ∉ maxClientsRoute := by decide

theorem indexRoute_fits : indexRoute.length < ROUTE_SIZE := by decide

theorem indexRoute_noNul : 0 ∉ indexRoute := by decide

/-- `response_root()`. -/
def responseRoot : HttpResponse where
  route := indexRoute
  mimeType := .HTML
  code := .OK
  conn := .CLOSE
  fits := indexRoute_fits
  noNul := indexRoute_noNul

/-- `response_max_clients()`. -/
def responseMaxClients : HttpResponse where
  route := maxClientsRoute
  mimeType := .HTML
  code := .NOT_FOUND
  conn := .CLOSE
  fits := maxClientsRoute_fits
  noNul := maxClientsRoute_noNul

/-- `response_not_found()`. -/
def responseNotFound : HttpResponse where
  route := notFoundRoute
  mimeType := .HTML
  code := .NOT_FOUND
  conn := .CLOSE
  fits := notFoundRoute_fits
  noNul := notFoundRoute_noNul

/-! ## What the call finds -/

/-- A file: its bytes, and the first byte at which reading it fails, if there is one. -/
structure File where
  bytes : List UInt8
  readError : Option Nat := none
deriving DecidableEq, Repr

/-- The bytes that are read before the end or an error. -/
def File.readable (f : File) : List UInt8 :=
  match f.readError with
  | none => f.bytes
  | some k => f.bytes.take k

/-- The text `ctime()` gives, before its newline. -/
structure CTime where
  text : List UInt8
  length : text.length = 24
  line : newline ∉ text
  noNul : 0 ∉ text

/-- What a call of `response` finds: the files that can be opened, the time, whether `malloc()` has
the memory, and the results of the calls of `send()`. -/
structure Call where
  files : List UInt8 → Option File
  time : CTime
  granted : Bool
  sends : List SendResult

/-- What memory that nobody has written holds: the variable `content_length`, the bytes of the answer
and the bytes behind the text of a route. -/
structure Leftover where
  contentLength : BitVec 32
  heap : Nat → UInt8
  behind : Nat → UInt8

/-- `fopen(path, "rb")`: a file whose size is not a `long` is not opened. -/
def fopen (files : List UInt8 → Option File) (path : List UInt8) : Option File :=
  (files path).filter fun f => f.bytes.length < 2 ^ 31

/-- `malloc(size)`, for the `size_t` that a `long` is converted to: one that was negative is too
great. -/
def malloc (granted : Bool) (size : Int) : Option Nat := if 0 ≤ size ∧ granted = true then some size.toNat else none

/-! ## The source function -/

def SERVER_ROOT : List UInt8 := ascii ['w', 'e', 'b']
def SERVER_NAME : List UInt8 := ascii ['C', 'o', 't', 't', 'i', '_', 's', 'e', 'r', 'v', 'e', 'r']
def RESPONSE_SIZE : Nat := 2048
def ENOMEM : Int := 12
def slash : UInt8 := 47

/-- The bytes that `strcpy(res.route, header)` writes behind `res.route`. -/
def overrun (route : List UInt8) : List UInt8 := (List.flatten [SERVER_ROOT, route, [0]]).drop ROUTE_SIZE

/-- `res.mime_type`, which stands behind `res.route`, after these bytes. -/
def HttpResponse.mimeTypeAfter (res : HttpResponse) : Nat :=
  leNat (overrun res.route ++ (leBytes 4 res.mimeType.value).drop (overrun res.route).length)

/-- The value of `res.mime_type` when the header of a raw text or of a file is printed. -/
def HttpResponse.mimeIndex (res : HttpResponse) : Nat :=
  if res.route.head? = some slash then res.mimeTypeAfter else res.mimeType.value

/-- What the header is printed from and the body is read from. -/
structure Source where
  code : HttpCode
  mimeType : Nat
  conn : HttpConn
  contentLength : Int
  fd : Option File
  route : List UInt8

/-- The part of `response` that gets the content length. -/
def source (files : List UInt8 → Option File) (u : Leftover) (res : HttpResponse) : Source :=
  if res.route.head? = some slash then
    match fopen files (SERVER_ROOT ++ res.route) with
    | none =>
      -- `res` is replaced, `content_length` is not written
      { code := responseNotFound.code, mimeType := responseNotFound.mimeType.value, conn := responseNotFound.conn,
        contentLength := u.contentLength.toInt, fd := none, route := responseNotFound.route }
    | some f =>
      { code := res.code, mimeType := res.mimeTypeAfter, conn := res.conn, contentLength := f.bytes.length,
        fd := some f, route := SERVER_ROOT ++ res.route }
  else
    { code := res.code, mimeType := res.mimeType.value, conn := res.conn, contentLength := res.route.length,
      fd := none, route := res.route }

/-- What `sprintf` prints into `header`. -/
def headerText (code date mime conn : List UInt8) (contentLength : Int) : List UInt8 :=
  List.flatten [ascii ['H', 'T', 'T', 'P', '/', '1', '.', '1', ' '], code, [newline],
    ascii ['S', 'e', 'r', 'v', 'e', 'r', ':', ' '], SERVER_NAME, [newline],
    ascii ['D', 'a', 't', 'e', ':', ' '], date, [newline],
    ascii ['C', 'o', 'n', 't', 'e', 'n', 't', '-', 'L', 'e', 'n', 'g', 't', 'h', ':', ' '],
    formatInt 0 contentLength, [newline],
    ascii ['C', 'o', 'n', 't', 'e', 'n', 't', '-', 'T', 'y', 'p', 'e', ':', ' '], mime, [newline],
    ascii ['C', 'o', 'n', 't', 'e', 'n', 't', '-', 'L', 'a', 'n', 'g', 'u', 'a', 'g', 'e', ':', ' ', 'e', 'n'], [newline],
    ascii ['C', 'o', 'n', 'n', 'e', 'c', 't', 'i', 'o', 'n', ':', ' '], conn, [newline], [newline]]

/-- The loop that reads the file into the answer, with the bytes still to be read before the end or
an error: what it copies, and where. -/
def readLoop (rest : List UInt8) (headerSize : Nat) : List Copy :=
  if rest = [] then []
  else
    let chunk := rest.take RESPONSE_SIZE
    -- a `read` that comes short has met the end or the error, and the loop ends
    if chunk.length < RESPONSE_SIZE then [Copy.ofList headerSize chunk]
    else Copy.ofList headerSize chunk :: readLoop (rest.drop RESPONSE_SIZE) (headerSize + chunk.length)
termination_by rest.length
decreasing_by
  have hpos := List.length_pos_iff.2 ‹¬ rest = []›
  rw [List.length_drop]
  exact Nat.sub_lt hpos (by decide)

/-- The copies of the body into the answer. -/
def Source.copies (s : Source) (u : Leftover) (headerSize : Nat) : List Copy :=
  match s.fd with
  | some f => readLoop f.readable headerSize
  | none => [⟨headerSize, (s.contentLength % 2 ^ 32).toNat, fun i => s.route.getD i (u.behind i)⟩]

/-- A call of `response`: the size of the answer and the copies into it, its bytes after them, and
once `Socket::write` has returned the returned `int` and what the calls of `send()` did. -/
structure Attempt where
  allocated : Nat
  copies : List Copy
  answer : Nat → UInt8
  returned : Option (Int × Wire)

/-- `HttpServer::response(socket, res)`; `none` when the header is printed from outside
`http_mime_types`. -/
def response (c : Call) (u : Leftover) (res : HttpResponse) : Option Attempt :=
  let s := source c.files u res
  (httpMimeTypes[s.mimeType]?).map fun mime =>
    let header := headerText (httpCode s.code) c.time.text mime (httpConn s.conn) s.contentLength
    match malloc c.granted (intAdd header.length s.contentLength) with
    | none => { allocated := 0, copies := [], answer := u.heap, returned := some (-ENOMEM, {}) }
    | some allocated =>
      let copies := Copy.ofList 0 header :: s.copies u header.length
      { allocated, copies, answer := afterCopies u.heap copies,
        returned := (write allocated c.sends).map fun (ret, w) => (if ret = -1 then -1 else 0, w) }

/-! ## What a response should send -/

/-- What `response` reads the body from: the text of the route, or the file it names. -/
def loaded (files : List UInt8 → Option File) (res : HttpResponse) : Option File :=
  if res.route.head? = some slash then fopen files (SERVER_ROOT ++ res.route) else some { bytes := res.route }

/-- The body of a response: the raw text, the file's bytes, or the not-found page when there is no
such file. -/
def body (files : List UInt8 → Option File) (res : HttpResponse) : Option (List UInt8) :=
  ((loaded files res).or (fopen files (SERVER_ROOT ++ notFoundRoute))).map File.bytes

/-- A header that announces `n` bytes: the lines `response` prints, none of them broken. -/
def IsHeader (header : List UInt8) (n : Nat) : Prop :=
  ∃ code date mime conn, newline ∉ code ∧ newline ∉ date ∧ newline ∉ mime ∧ newline ∉ conn ∧
    header = headerText code date mime conn n

/-- Nothing was sent, or each byte once of a header and the body it announces; and no copy ran past the
end of the answer. -/
structure Attempt.Framed (a : Attempt) (body : Option (List UInt8)) : Prop where
  sent : ∀ ret w, a.returned = some (ret, w) → w.handed = [] ∨
    ∃ header bytes, body = some bytes ∧ IsHeader header bytes.length ∧
      w.handed = List.range (header.length + bytes.length) ∧ w.bytes a.answer = header ++ bytes
  bounds : ∀ copy ∈ a.copies, copy.offset + copy.length ≤ a.allocated

/-- Whatever unwritten memory holds, the response is framed. -/
def Call.Frames (c : Call) (res : HttpResponse) : Prop :=
  ∀ u, ∃ a, response c u res = some a ∧ a.Framed (body c.files res)

/-- The size of the answer, when there is something to read its body from. -/
def Call.size (c : Call) (res : HttpResponse) : Option Nat :=
  (loaded c.files res).bind fun f => (httpMimeTypes[res.mimeIndex]?).map fun mime =>
    (headerText (httpCode res.code) c.time.text mime (httpConn res.conn) f.bytes.length).length + f.bytes.length

/-! ## The header -/

theorem httpCode_fits (code : HttpCode) :
    (httpCode code).length < 20 ∧ newline ∉ httpCode code ∧ 0 ∉ httpCode code := by
  cases code <;> decide

theorem httpConn_fits (conn : HttpConn) :
    (httpConn conn).length < 20 ∧ newline ∉ httpConn conn ∧ 0 ∉ httpConn conn := by
  cases conn <;> decide

theorem httpMimeTypes_fit : ∀ mime ∈ httpMimeTypes, mime.length < 50 ∧ newline ∉ mime ∧ 0 ∉ mime := by decide

theorem headerText_length (code date mime conn : List UInt8) (n : Int) :
    (headerText code date mime conn n).length =
      105 + code.length + date.length + (formatInt 0 n).length + mime.length + conn.length := by
  simp only [headerText, ascii, SERVER_NAME, List.flatten_cons, List.flatten_nil, List.length_append,
    List.length_map, List.length_cons, List.length_nil]
  omega

/-- What `sprintf` prints fits into `header`. -/
theorem headerText_fits (code : HttpCode) (time : CTime) {mime : List UInt8} (hm : mime ∈ httpMimeTypes)
    (conn : HttpConn) {n : Int} (hn : n.natAbs ≤ 2 ^ 31) :
    (headerText (httpCode code) time.text mime (httpConn conn) n).length < RESPONSE_SIZE := by
  have hc := (httpCode_fits code).1
  have hk := (httpConn_fits conn).1
  have hmime := (httpMimeTypes_fit mime hm).1
  have hd : (decimal n.natAbs).length ≤ 10 := decimal_length_le (by decide) (by omega)
  have hs : (signText (n < 0)).length ≤ 1 := by
    unfold signText
    split <;> simp
  rw [headerText_length, time.length, formatInt_length, RESPONSE_SIZE]
  omega

theorem isHeader_headerText (code : HttpCode) (time : CTime) {mime : List UInt8} (hm : mime ∈ httpMimeTypes)
    (conn : HttpConn) (n : Nat) : IsHeader (headerText (httpCode code) time.text mime (httpConn conn) n) n :=
  ⟨_, _, _, _, (httpCode_fits code).2.1, time.line, (httpMimeTypes_fit mime hm).2.1, (httpConn_fits conn).2.1, rfl⟩

/-- The lines of a header. -/
def headerLines (code date mime conn : List UInt8) (n : Nat) : List (List UInt8) :=
  [ascii ['H', 'T', 'T', 'P', '/', '1', '.', '1', ' '] ++ code,
    ascii ['S', 'e', 'r', 'v', 'e', 'r', ':', ' '] ++ SERVER_NAME,
    ascii ['D', 'a', 't', 'e', ':', ' '] ++ date,
    ascii ['C', 'o', 'n', 't', 'e', 'n', 't', '-', 'L', 'e', 'n', 'g', 't', 'h', ':', ' '] ++ formatInt 0 n,
    ascii ['C', 'o', 'n', 't', 'e', 'n', 't', '-', 'T', 'y', 'p', 'e', ':', ' '] ++ mime,
    ascii ['C', 'o', 'n', 't', 'e', 'n', 't', '-', 'L', 'a', 'n', 'g', 'u', 'a', 'g', 'e', ':', ' ', 'e', 'n'],
    ascii ['C', 'o', 'n', 'n', 'e', 'c', 't', 'i', 'o', 'n', ':', ' '] ++ conn]

theorem headerText_eq_block (code date mime conn : List UInt8) (n : Nat) :
    headerText code date mime conn n = block (headerLines code date mime conn n) := by
  simp [headerText, headerLines, block, newline]

theorem newline_not_mem_formatInt (n : Nat) : newline ∉ formatInt 0 n := by
  intro h
  have := isDigit_of_mem_formatInt h
  exact absurd this (by decide)

theorem line_ok {name value : List UInt8} (hn : name ≠ [] ∧ newline ∉ name) (hv : newline ∉ value) :
    name ++ value ≠ [] ∧ newline ∉ name ++ value := by
  rw [List.mem_append, not_or]
  exact ⟨List.append_ne_nil_of_left_ne_nil hn.1 _, hn.2, hv⟩

theorem headerLines_ok {code date mime conn : List UInt8} (hc : newline ∉ code) (hd : newline ∉ date)
    (hm : newline ∉ mime) (hk : newline ∉ conn) (n : Nat) :
    ∀ line ∈ headerLines code date mime conn n, line ≠ [] ∧ newline ∉ line := by
  have hn := newline_not_mem_formatInt n
  unfold headerLines
  simp only [List.forall_mem_cons, List.not_mem_nil, false_imp_iff, implies_true, and_true]
  exact ⟨line_ok (by decide) hc, line_ok (by decide) (by decide), line_ok (by decide) hd, line_ok (by decide) hn,
    line_ok (by decide) hm, by decide, line_ok (by decide) hk⟩

/-- No header goes on as another one. -/
theorem IsHeader.eq_of_prefix {h h' : List UInt8} {n n' : Nat} (hh : IsHeader h n) (hh' : IsHeader h' n')
    (hp : h <+: h') : h = h' := by
  obtain ⟨code, date, mime, conn, hc, hd, hm, hk, rfl⟩ := hh
  obtain ⟨code', date', mime', conn', hc', hd', hm', hk', rfl⟩ := hh'
  rw [headerText_eq_block, headerText_eq_block] at hp ⊢
  rw [block_injective (headerLines_ok hc hd hm hk n) (headerLines_ok hc' hd' hm' hk' n') hp]

theorem IsHeader.length_pos {h : List UInt8} {n : Nat} (hh : IsHeader h n) : 0 < h.length := by
  obtain ⟨code, date, mime, conn, -, -, -, -, rfl⟩ := hh
  rw [headerText_length]
  omega

/-! ## The copies -/

/-- The loop copies what can be read behind the header, and nothing past it. -/
theorem readLoop_holds {buffer : Nat → UInt8} {before : List UInt8} (h : Holds buffer before) (rest : List UInt8) :
    Holds (afterCopies buffer (readLoop rest before.length)) (before ++ rest) := by
  generalize hn : before.length = n
  induction rest, n using readLoop.induct generalizing buffer before with
  | case1 n =>
    rw [readLoop]
    simpa [afterCopies] using h
  | case2 rest n hne chunk =>
    rename_i hshort
    subst hn
    have hchunk : chunk = rest := by
      apply List.take_of_length_le
      rw [List.length_take] at hshort
      omega
    rw [readLoop, if_neg hne, if_pos hshort]
    change Holds (afterCopies buffer [Copy.ofList before.length chunk]) (before ++ rest)
    rw [hchunk]
    exact h.copy_ofList rest
  | case3 rest n hne chunk =>
    rename_i hfull ih
    subst hn
    rw [readLoop, if_neg hne, if_neg hfull]
    have hcopy := h.copy_ofList (rest.take RESPONSE_SIZE)
    have hrest := ih hcopy (by rw [List.length_append])
    rwa [List.append_assoc, List.take_append_drop] at hrest

theorem readLoop_ends (rest : List UInt8) (n : Nat) :
    ∀ copy ∈ readLoop rest n, copy.offset + copy.length ≤ n + rest.length := by
  induction rest, n using readLoop.induct with
  | case1 n =>
    rw [readLoop]
    simp
  | case2 rest n hne chunk =>
    rename_i hshort
    rw [readLoop, if_neg hne, if_pos hshort]
    rintro copy hcopy
    rw [List.mem_singleton.1 hcopy]
    simp only [Copy.ofList, List.length_take]
    omega
  | case3 rest n hne chunk =>
    rename_i hfull ih
    rw [readLoop, if_neg hne, if_neg hfull]
    rintro copy hcopy
    have hlen : chunk.length + (rest.drop RESPONSE_SIZE).length = rest.length := by
      rw [← List.length_append, List.take_append_drop]
    rcases List.mem_cons.1 hcopy with rfl | hcopy
    · change n + chunk.length ≤ n + rest.length
      omega
    · have := ih copy hcopy
      omega

/-! ## The call -/

/-- A route with room for the server root before it does not run over. -/
theorem mimeIndex_eq_of_short {res : HttpResponse} (h : SERVER_ROOT.length + res.route.length < ROUTE_SIZE) :
    res.mimeIndex = res.mimeType.value := by
  have hover : overrun res.route = [] := by
    apply List.drop_eq_nil_of_le
    simp only [List.flatten_cons, List.flatten_nil, List.length_append, List.length_cons, List.length_nil]
    omega
  have hvalue : res.mimeType.value < 256 ^ 4 := by
    cases res.mimeType <;> decide
  unfold HttpResponse.mimeIndex HttpResponse.mimeTypeAfter
  rw [hover, List.nil_append, List.length_nil, List.drop_zero, Td3.Lib.leNat_leBytes hvalue, ite_self]

theorem HttpResponse.route_lt (res : HttpResponse) : res.route.length < 256 := res.fits

/-- The length of a raw text, as the `size_t` of `memcpy`. -/
theorem HttpResponse.route_size (res : HttpResponse) :
    ((res.route.length : Int) % 2 ^ 32).toNat = res.route.length := by
  have hlt := res.route_lt
  omega

theorem loaded_lt {files : List UInt8 → Option File} {res : HttpResponse} {f : File} (h : loaded files res = some f) :
    f.bytes.length < 2 ^ 31 := by
  unfold loaded at h
  split at h
  · have := (Option.filter_eq_some_iff.1 h).2
    simpa using this
  · have hlt := res.route_lt
    rw [← Option.some.inj h]
    simp only
    omega

/-- The header of a response that has something to read its body from. -/
theorem source_loaded {files : List UInt8 → Option File} {res : HttpResponse} {f : File} (h : loaded files res = some f)
    (u : Leftover) : (source files u res).code = res.code ∧ (source files u res).mimeType = res.mimeIndex ∧
      (source files u res).conn = res.conn ∧ (source files u res).contentLength = f.bytes.length := by
  unfold source HttpResponse.mimeIndex
  unfold loaded at h
  split at h
  · simp only [if_true, *, and_self]
  · cases h
    simp only [if_false, *, and_self]

/-- The body is copied behind the header, as far as it can be read. -/
theorem copies_loaded {files : List UInt8 → Option File} {res : HttpResponse} {f : File} (h : loaded files res = some f)
    (u : Leftover) {buffer : Nat → UInt8} {before : List UInt8} (hb : Holds buffer before) :
    Holds (afterCopies buffer ((source files u res).copies u before.length)) (before ++ f.readable) := by
  unfold source Source.copies
  unfold loaded at h
  split at h
  · simp only [if_true, *]
    exact readLoop_holds hb f.readable
  · cases h
    simp only [if_false, *]
    refine hb.copy rfl res.route_size fun i hi => ?_
    simp only [File.readable] at hi
    simp only [List.getD_eq_getElem?_getD, List.getElem?_eq_getElem hi, Option.getD_some, File.readable]

theorem copies_loaded_end {files : List UInt8 → Option File} {res : HttpResponse} {f : File}
    (h : loaded files res = some f) (u : Leftover) (n : Nat) :
    ∀ copy ∈ (source files u res).copies u n, copy.offset + copy.length ≤ n + f.readable.length := by
  unfold source Source.copies
  unfold loaded at h
  split at h
  · simp only [if_true, *]
    exact readLoop_ends f.readable n
  · cases h
    simp only [if_false, *, List.mem_singleton, forall_eq, File.readable, res.route_size, le_refl]

theorem File.readable_length_le (f : File) : f.readable.length ≤ f.bytes.length := by
  unfold File.readable
  split
  · exact le_rfl
  · exact List.length_take_le' _ _

theorem File.readable_prefix (f : File) : f.readable <+: f.bytes := by
  unfold File.readable
  split
  · exact List.prefix_rfl
  · exact List.take_prefix _ _

section
variable {c : Call} {res : HttpResponse} {f : File} {mime : List UInt8} {n : Nat}

theorem size_eq_some : c.size res = some n ↔ ∃ f mime, loaded c.files res = some f ∧
    httpMimeTypes[res.mimeIndex]? = some mime ∧
    (headerText (httpCode res.code) c.time.text mime (httpConn res.conn) f.bytes.length).length + f.bytes.length = n := by
  simp only [Call.size, Option.bind_eq_some_iff, Option.map_eq_some_iff]
  constructor
  · rintro ⟨f, hf, mime, hm, hn⟩
    exact ⟨f, mime, hf, hm, hn⟩
  · rintro ⟨f, mime, hf, hm, hn⟩
    exact ⟨f, hf, mime, hm, hn⟩

/-- Without the memory for the answer the call fails before it sends anything. -/
theorem response_refused (hf : loaded c.files res = some f) (hm : httpMimeTypes[res.mimeIndex]? = some mime)
    (u : Leftover) (h : malloc c.granted (intAdd
      (headerText (httpCode res.code) c.time.text mime (httpConn res.conn) f.bytes.length).length f.bytes.length) = none) :
    response c u res = some { allocated := 0, copies := [], answer := u.heap, returned := some (-ENOMEM, {}) } := by
  obtain ⟨hc, hi, hk, hl⟩ := source_loaded hf u
  unfold response
  simp only [hc, hi, hk, hl, hm, h, Option.map_some]

/-- With it, the answer is the header and what can be read of the body, behind it what the memory held
before, and the copies stay inside. -/
theorem response_granted (hf : loaded c.files res = some f) (hm : httpMimeTypes[res.mimeIndex]? = some mime)
    (u : Leftover) {header : List UInt8}
    (hh : header = headerText (httpCode res.code) c.time.text mime (httpConn res.conn) f.bytes.length)
    (hg : c.granted = true) (hn : header.length + f.bytes.length < 2 ^ 31) :
    ∃ a, response c u res = some a ∧
      a.returned = (write (header.length + f.bytes.length) c.sends).map (fun (ret, w) => (if ret = -1 then -1 else 0, w)) ∧
      Holds a.answer (header ++ f.readable) ∧
      (∀ i, header.length + f.readable.length ≤ i → a.answer i = u.heap i) ∧
      ∀ copy ∈ a.copies, copy.offset + copy.length ≤ a.allocated := by
  obtain ⟨hc, hi, hk, hl⟩ := source_loaded hf u
  have hle := f.readable_length_le
  have hadd : intAdd header.length f.bytes.length = ((header.length + f.bytes.length : Nat) : Int) := by
    rw [intAdd_eq (by omega) (by omega)]
    omega
  have hmalloc : malloc c.granted (intAdd header.length f.bytes.length) = some (header.length + f.bytes.length) := by
    unfold malloc
    rw [hadd, if_pos ⟨by omega, hg⟩, Int.toNat_natCast]
  have hends : ∀ copy ∈ Copy.ofList 0 header :: (source c.files u res).copies u header.length,
      copy.offset + copy.length ≤ header.length + f.readable.length := by
    rintro copy hcopy
    rcases List.mem_cons.1 hcopy with rfl | hcopy
    · change 0 + header.length ≤ _
      omega
    · exact copies_loaded_end hf u _ copy hcopy
  let copies := Copy.ofList 0 header :: (source c.files u res).copies u header.length
  refine ⟨⟨header.length + f.bytes.length, copies, afterCopies u.heap copies,
    (write (header.length + f.bytes.length) c.sends).map fun (ret, w) => (if ret = -1 then -1 else 0, w)⟩,
    ?_, rfl, ?_, ?_, ?_⟩
  · unfold response
    simp only [hc, hi, hk, hl, hm, ← hh, hmalloc, Option.map_some]
    rfl
  · have hheader := (Td3.Lib.holds_nil u.heap).copy_ofList header
    rw [List.nil_append] at hheader
    exact copies_loaded hf u hheader
  · rintro i hi
    exact Td3.Lib.afterCopies_of_ends (fun copy hcopy => (hends copy hcopy).trans hi) u.heap
  · rintro copy hcopy
    have := hends copy hcopy
    change copy.offset + copy.length ≤ header.length + f.bytes.length
    omega

/-! ## A file that cannot be opened -/

/-- The page is printed as not found, with the uninitialised length. -/
theorem source_unopened (h : loaded c.files res = none) (u : Leftover) : source c.files u res =
    { code := .NOT_FOUND, mimeType := HttpMimeType.HTML.value, conn := .CLOSE, contentLength := u.contentLength.toInt,
      fd := none, route := notFoundRoute } := by
  unfold loaded at h
  unfold source
  split at h
  · simp only [if_true, *]
    rfl
  · cases h

/-- With an uninitialised length of -1 the answer is one byte shorter than its header. -/
theorem not_frames_unopened (h : loaded c.files res = none) (hg : c.granted = true) : ¬ c.Frames res := by
  rintro hf
  obtain ⟨a, ha, -, hbounds⟩ := hf ⟨-1, fun _ => 0, fun _ => 0⟩
  have hmime : httpMimeTypes[HttpMimeType.HTML.value]? = some (httpMimeTypes.getD 0 []) := rfl
  have hlen : (-1 : BitVec 32).toInt = -1 := by decide
  unfold response at ha
  simp only [source_unopened h, hmime, Option.map_some, Option.some.injEq, hlen] at ha
  generalize hh : headerText (httpCode .NOT_FOUND) c.time.text (httpMimeTypes.getD 0 []) (httpConn .CLOSE) (-1) =
    header at ha
  have hsize : header.length < RESPONSE_SIZE := by
    rw [← hh]
    exact headerText_fits .NOT_FOUND c.time (by decide) .CLOSE (by decide)
  have hpos : 105 ≤ header.length := by
    rw [← hh, headerText_length]
    omega
  unfold RESPONSE_SIZE at hsize
  have hmalloc : malloc c.granted (intAdd header.length (-1)) = some (header.length - 1) := by
    unfold malloc
    rw [intAdd_eq (by omega) (by omega), if_pos ⟨by omega, hg⟩]
    congr 1
    omega
  simp only [hmalloc] at ha
  subst ha
  have := hbounds (Copy.ofList 0 header) (List.mem_cons_self ..)
  change 0 + header.length ≤ header.length - 1 at this
  omega

theorem malloc_refused (size : Int) : malloc false size = none := by simp [malloc]

/-- A call that has no memory for its answer, and prints a header, is framed: it sends nothing. -/
theorem framed_refused (u : Leftover) (b : Option (List UInt8)) :
    Attempt.Framed { allocated := 0, copies := [], answer := u.heap, returned := some (-ENOMEM, {}) } b := by
  constructor
  · rintro ret w h
    cases h
    exact .inl rfl
  · simp

theorem frames_unopened (h : loaded c.files res = none) (hg : c.granted = false) : c.Frames res := by
  rintro u
  have hmime : httpMimeTypes[HttpMimeType.HTML.value]? = some (httpMimeTypes.getD 0 []) := rfl
  refine ⟨_, ?_, framed_refused u _⟩
  unfold response
  simp only [source_unopened h, hmime, hg, malloc_refused, Option.map_some]

/-- A size past the greatest `long` is negative, and too great for `malloc`. -/
theorem malloc_negative {header content : Nat} (hh : header < RESPONSE_SIZE) (hc : content < 2 ^ 31)
    (h : 2 ^ 31 ≤ header + content) (granted : Bool) : malloc granted (intAdd header content) = none := by
  unfold RESPONSE_SIZE at hh
  have hneg : intAdd header content < 0 := by
    unfold intAdd
    rw [Int.bmod_def]
    omega
  unfold malloc
  rw [if_neg (by omega)]

theorem malloc_size (hf : loaded c.files res = some f) (hm : httpMimeTypes[res.mimeIndex]? = some mime)
    (h : 2 ^ 31 ≤ (headerText (httpCode res.code) c.time.text mime (httpConn res.conn) f.bytes.length).length +
      f.bytes.length) (granted : Bool) :
    malloc granted (intAdd
      (headerText (httpCode res.code) c.time.text mime (httpConn res.conn) f.bytes.length).length f.bytes.length) = none := by
  have hlt := loaded_lt hf
  exact malloc_negative (headerText_fits res.code c.time (List.mem_of_getElem? hm) res.conn (by omega)) hlt h granted

theorem frames_refused (hf : loaded c.files res = some f) (hm : httpMimeTypes[res.mimeIndex]? = some mime)
    (h : malloc c.granted (intAdd
      (headerText (httpCode res.code) c.time.text mime (httpConn res.conn) f.bytes.length).length f.bytes.length) = none) :
    c.Frames res := fun u => ⟨_, response_refused hf hm u h, framed_refused u _⟩

/-! ## When a response is framed -/

/-- With the memory for it, an answer is framed while `Socket::write` waits, when it sent nothing, and
when one `send()` took all of an answer that was read to its end. -/
theorem framed_granted (hf : loaded c.files res = some f) (hm : httpMimeTypes[res.mimeIndex]? = some mime)
    (hn : (headerText (httpCode res.code) c.time.text mime (httpConn res.conn) f.bytes.length).length + f.bytes.length = n)
    (hg : c.granted = true) (hlt : n < 2 ^ 31) (hl : ∀ r ∈ c.sends, r.Legal n) :
    c.Frames res ↔ (reaches n 0 c.sends = false ∧ .failed ∉ c.sends) ∨ c.sends.head? = some .failed ∨
      (c.sends.head? = some (.accepted n) ∧ f.readable = f.bytes) := by
  generalize hh : headerText (httpCode res.code) c.time.text mime (httpConn res.conn) f.bytes.length = header at hn
  have hheader : IsHeader header f.bytes.length := by
    rw [← hh]
    exact isHeader_headerText res.code c.time (List.mem_of_getElem? hm) res.conn _
  have hpos := hheader.length_pos
  have hbody : body c.files res = some f.bytes := by simp [body, hf]
  constructor
  · rintro hframes
    cases hw : write n c.sends with
    | none => exact .inl ((writeLoop_eq_none_iff n c.sends 0 {}).1 hw)
    | some p =>
      obtain ⟨ret, w⟩ := p
      right
      -- the memory behind what is read of the body holds other bytes than the body
      obtain ⟨a, ha, hsent, -⟩ := hframes ⟨0, fun i => f.bytes.getD (i - header.length) 0 + 1, fun _ => 0⟩
      obtain ⟨a', ha', hret, hholds, hbehind, -⟩ := response_granted hf hm
        ⟨0, fun i => f.bytes.getD (i - header.length) 0 + 1, fun _ => 0⟩ hh.symm hg (by omega)
      rw [ha, Option.some.injEq] at ha'
      subst ha'
      rw [hn, hw] at hret
      rcases hsent _ w hret with hnil | ⟨header', bytes, hb, hhead', hhanded, hbytes⟩
      · exact .inl ((write_handed_eq_nil_iff (by omega) hl hw).1 hnil)
      · right
        rw [hbody, Option.some.injEq] at hb
        subst hb
        have hholds' : Holds a.answer (header' ++ f.bytes) := by
          rw [Td3.Lib.holds_iff_map_range, List.length_append, ← hhanded]
          exact hbytes
        have heq : header' = header := by
          rcases hholds'.left.prefix_or_prefix hholds.left with hp | hp
          · exact hhead'.eq_of_prefix hheader hp
          · exact (hheader.eq_of_prefix hhead' hp).symm
        subst heq
        rw [hn] at hhanded
        refine ⟨(write_handed_eq_range_iff (by omega) hlt hl hw).1 hhanded, ?_⟩
        by_contra hshort
        have hlen : f.readable.length < f.bytes.length := by
          refine lt_of_le_of_ne f.readable_length_le fun e => hshort ?_
          exact f.readable_prefix.eq_of_length e
        have hnew := hbehind (header'.length + f.readable.length) le_rfl
        rw [hholds' _ (by rw [List.length_append]; omega)] at hnew
        simp only [List.getElem_append_right (Nat.le_add_right _ _), Nat.add_sub_cancel_left,
          List.getD_eq_getElem?_getD, List.getElem?_eq_getElem hlen, Option.getD_some] at hnew
        rw [← UInt8.toNat_inj, UInt8.toNat_add] at hnew
        have hlt := (f.bytes[f.readable.length]).toNat_lt
        change _ = (_ + 1) % 2 ^ 8 at hnew
        omega
  · rintro (⟨hr, hfail⟩ | hhead | ⟨hhead, hread⟩) u
    all_goals
      obtain ⟨a, ha, hret, hholds, -, hbounds⟩ := response_granted hf hm u hh.symm hg (by omega)
      refine ⟨a, ha, ?_, hbounds⟩
      rintro ret w hw
      rw [hret, hn, Option.map_eq_some_iff] at hw
      obtain ⟨⟨ret', w'⟩, hwrite, hw⟩ := hw
      simp only [Prod.mk.injEq] at hw
      obtain ⟨-, rfl⟩ := hw
    · have hnone := (writeLoop_eq_none_iff n c.sends 0 {}).2 ⟨hr, hfail⟩
      rw [write, hnone] at hwrite
      cases hwrite
    · exact .inl ((write_handed_eq_nil_iff (by omega) hl hwrite).2 hhead)
    · right
      have hhanded := (write_handed_eq_range_iff (by omega) hlt hl hwrite).2 hhead
      rw [hread] at hholds
      refine ⟨header, f.bytes, hbody, hheader, by rw [hn, hhanded], ?_⟩
      rw [Wire.bytes, hhanded, ← hn, ← List.length_append]
      exact Td3.Lib.holds_iff_map_range.1 hholds

/-- Whatever unwritten memory holds, `response` sends nothing, or one header that announces the bytes
of the right body behind it, and stays inside its answer, exactly when: a file that cannot be opened
meets no memory for the answer; or there is a body, its type is printed from the table, and there is no
memory for the answer, the first `send()` fails (or the call still waits), or the first `send()` takes
the whole answer, whose body was read to its end. -/
theorem frames_iff (c : Call) (res : HttpResponse) (hl : ∀ n, c.size res = some n → ∀ r ∈ c.sends, r.Legal n) :
    c.Frames res ↔ (loaded c.files res = none ∧ c.granted = false) ∨
      ∃ n, c.size res = some n ∧ (c.granted = false ∨ 2 ^ 31 ≤ n ∨
        (reaches n 0 c.sends = false ∧ .failed ∉ c.sends) ∨ c.sends.head? = some .failed ∨
        (c.sends.head? = some (.accepted n) ∧ ∀ f, loaded c.files res = some f → f.readable = f.bytes)) := by
  cases hf : loaded c.files res with
  | none =>
    have hsize : c.size res = none := by simp [Call.size, hf]
    rw [hsize]
    constructor
    · rintro hframes
      left
      refine ⟨rfl, ?_⟩
      by_contra hg
      exact not_frames_unopened hf (by simpa using hg) hframes
    · rintro (⟨-, hg⟩ | ⟨n, hn, -⟩)
      · exact frames_unopened hf hg
      · cases hn
  | some f =>
    cases hm : httpMimeTypes[res.mimeIndex]? with
    | none =>
      have hsize : c.size res = none := by simp [Call.size, hf, hm]
      rw [hsize]
      constructor
      · rintro hframes
        obtain ⟨a, ha, -⟩ := hframes ⟨0, fun _ => 0, fun _ => 0⟩
        unfold response at ha
        simp only [(source_loaded hf _).2.1, hm, Option.map_none] at ha
        cases ha
      · rintro (⟨hnone, -⟩ | ⟨n, hn, -⟩)
        · cases hnone
        · cases hn
    | some mime =>
      obtain ⟨n, hn⟩ : ∃ n, (headerText (httpCode res.code) c.time.text mime (httpConn res.conn)
        f.bytes.length).length + f.bytes.length = n := ⟨_, rfl⟩
      have hsize : c.size res = some n := size_eq_some.2 ⟨f, mime, hf, hm, hn⟩
      have hl := hl n hsize
      rw [hsize]
      by_cases hg : c.granted = true
      · by_cases hlt : n < 2 ^ 31
        · rw [framed_granted hf hm hn hg hlt hl]
          have hge : ¬ 2 ^ 31 ≤ n := by omega
          simp only [hg, hge, reduceCtorEq, false_and, false_or, Option.some.injEq, exists_eq_left', forall_eq']
        · exact iff_of_true (frames_refused hf hm (malloc_size hf hm (by omega) _))
            (.inr ⟨n, rfl, .inr (.inl (by omega))⟩)
      · rw [Bool.not_eq_true] at hg
        exact iff_of_true (frames_refused hf hm (by rw [hg, malloc_refused])) (.inr ⟨n, rfl, .inl hg⟩)

end

def epochText : List UInt8 :=
  ascii ['T', 'h', 'u', ' ', 'J', 'a', 'n', ' ', ' ', '1', ' ', '0', '0', ':', '0', '0', ':', '0', '0', ' ',
    '1', '9', '7', '0']

theorem epochText_ok : epochText.length = 24 ∧ newline ∉ epochText ∧ 0 ∉ epochText := by decide

def epoch : CTime := ⟨epochText, epochText_ok.1, epochText_ok.2.1, epochText_ok.2.2⟩

/-- A server root with one file in it. -/
def onlyFile (route bytes : List UInt8) : List UInt8 → Option File :=
  fun path => if path = SERVER_ROOT ++ route then some { bytes } else none

/-- A call that finds a root page of two bytes, whose answer has 167. -/
def indexCall (sends : List SendResult) : Call := ⟨onlyFile indexRoute [111, 107], epoch, true, sends⟩

theorem loaded_indexCall (sends : List SendResult) :
    loaded (indexCall sends).files responseRoot = some { bytes := [111, 107] } := by
  change loaded (onlyFile indexRoute [111, 107]) responseRoot = _
  decide

theorem size_indexCall (sends : List SendResult) : (indexCall sends).size responseRoot = some 167 := by
  have hmime : httpMimeTypes[responseRoot.mimeIndex]? = some (httpMimeTypes.getD 0 []) := by decide
  have hdigits : (formatInt 0 (([111, 107] : List UInt8).length : Int)).length = 1 := by
    rw [formatInt_length]
    simp [signText, decimal]
  refine size_eq_some.2 ⟨_, _, loaded_indexCall sends, hmime, ?_⟩
  rw [headerText_length, hdigits, (indexCall sends).time.length]
  decide

/-- One `send()` takes the answer. -/
theorem frames_iff_whole : (indexCall [.accepted 167]).Frames responseRoot := by
  refine (frames_iff _ _ ?_).2 (.inr ⟨167, size_indexCall _, ?_⟩)
  · rintro n hn
    rw [size_indexCall, Option.some.injEq] at hn
    simp [indexCall, SendResult.Legal, ← hn]
  · refine .inr (.inr (.inr (.inr ⟨rfl, fun f hf => ?_⟩)))
    rw [loaded_indexCall, Option.some.injEq] at hf
    rw [← hf]
    rfl

/-- A call that finds only the not-found page. -/
def missingCall (sends : List SendResult) : Call := ⟨onlyFile notFoundRoute [60, 62], epoch, true, sends⟩

theorem loaded_missingCall (sends : List SendResult) : loaded (missingCall sends).files responseRoot = none := by
  change loaded (onlyFile notFoundRoute [60, 62]) responseRoot = none
  decide

/-- The root page's response is then neither of the two pages. -/
theorem not_frames_missing : ¬ ∀ (c : Call) (res : HttpResponse),
    (∀ n, c.size res = some n → ∀ r ∈ c.sends, r.Legal n) → c.Frames res := by
  intro h
  refine not_frames_unopened (loaded_missingCall []) rfl (h (missingCall []) responseRoot ?_)
  rintro n hn
  simp [Call.size, loaded_missingCall] at hn

end Td3.Server

/-
A whole connection of `HttpServer::on_accept` (server/src/httpserver.cpp): requests in, answers out. What the
client reads from the bytes it gets, as HTTP, is one message for each of its requests, in their order: the page
that `on_accept` picks, or the not-found page where that one was refused before any of it was sent.
-/
import Td3.Lib.Http
import Td3.Server.Delivery
import Td3.Server.Segmentation
import Td3.Server.UpdateJson

namespace Td3.Server

open Td3.CString Td3.Decimal Td3.Http
open Td3.Lib (Holds holds_iff_map_range)

/-! ## A connection -/

/-- What a round of the loop meets: the request that `recv` brings, `serverData` when the request is handled and
when `response_update` reads it, and what the calls of `response` find. -/
structure Visit where
  message : Message
  recv : Recv
  arrives : recv.bytes = message.bytes
  terminated : recv.Terminated
  data : ServerData
  seen : ServerData
  values : seen.Values
  call : Call
  leftover : Leftover
  retry : Call
  retryLeftover : Leftover

def Visit.sending (v : Visit) : Sending where
  call := v.call
  leftover := v.leftover
  retry := v.retry
  retryLeftover := v.retryLeftover
  json := responseUpdate v.seen v.values

/-- The bytes that a call of `response` handed to the peer -/
def Attempt.sent (a : Attempt) : List UInt8 := (a.returned.map fun (_, w) => w.bytes a.answer).getD []

def Round.sent (r : Round) : List UInt8 := (r.first.map Attempt.sent).getD [] ++ (r.second.map Attempt.sent).getD []

/-- Its calls of `response` have returned. -/
def Round.done (r : Round) : Bool := r.first.any (fun a => a.returned.isSome) && r.second.all fun a => a.returned.isSome

/-- The loop of `on_accept`, up to the end of the stream. -/
def connection : List Visit → HttpRequest → List Round
  | [], _ => []
  | v :: vs, req =>
    let parse := request (.received v.recv.bytes) v.recv.stack req
    if parse.ret = some 0 then
      let r := round v.sending parse.req v.data
      if r.done then r :: connection vs parse.req else [r]
    else []

/-! ## What the client is to read -/

def httpVersion : List UInt8 := ascii ['H', 'T', 'T', 'P', '/', '1', '.', '1', ' ']
def serverField : List UInt8 := ascii ['S', 'e', 'r', 'v', 'e', 'r']
def dateField : List UInt8 := ascii ['D', 'a', 't', 'e']
def lengthField : List UInt8 := ascii ['C', 'o', 'n', 't', 'e', 'n', 't', '-', 'L', 'e', 'n', 'g', 't', 'h']
def typeField : List UInt8 := ascii ['C', 'o', 'n', 't', 'e', 'n', 't', '-', 'T', 'y', 'p', 'e']
def languageField : List UInt8 := ascii ['C', 'o', 'n', 't', 'e', 'n', 't', '-', 'L', 'a', 'n', 'g', 'u', 'a', 'g', 'e']
def connectionField : List UInt8 := ascii ['C', 'o', 'n', 'n', 'e', 'c', 't', 'i', 'o', 'n']

/-- The message of a response with this body -/
def Call.reply (c : Call) (res : HttpResponse) (bytes : List UInt8) : Reply where
  status := httpVersion ++ httpCode res.code
  fields := [(serverField, SERVER_NAME), (dateField, c.time.text), (lengthField, formatInt 0 bytes.length),
    (typeField, httpMimeTypes.getD res.mimeType.value []), (languageField, ascii ['e', 'n']),
    (connectionField, httpConn res.conn)]
  body := bytes

/-- The request as it stands in the message -/
def Message.request (m : Message) : HttpRequest := ⟨fun i => m.route.getD i 0, methodOf m.method⟩

/-- The response that `on_accept` picks -/
def Visit.response (v : Visit) : HttpResponse :=
  (handle v.message.request v.data).2.http (responseUpdate v.seen v.values)

/-- The body is there to be read, the memory is granted, and the first `send()` takes the answer; `ctime()` starts
with the name of the day. -/
structure Call.Sends (c : Call) (res : HttpResponse) (bytes : List UInt8) : Prop where
  loaded : loaded c.files res = some { bytes }
  granted : c.granted = true
  accepted : ∃ n, c.size res = some n ∧ n < 2 ^ 31 ∧ c.sends.head? = some (.accepted n)
  day : c.time.text.head? ≠ some blank

/-- The response fails before any of it is sent: no memory, or the first `send()` fails. -/
def Call.Refused (c : Call) (res : HttpResponse) : Prop :=
  ∃ n, c.size res = some n ∧ (c.granted = false ∨ 2 ^ 31 ≤ n ∨ c.sends.head? = some .failed)

/-- The round answers with this message. -/
def Visit.Answers (v : Visit) (r : Reply) : Prop :=
  (∃ bytes, v.call.Sends v.response bytes ∧ r = v.call.reply v.response bytes) ∨
  v.call.Refused v.response ∧ ∃ bytes, v.retry.Sends responseNotFound bytes ∧ r = v.retry.reply responseNotFound bytes

/-! ## The message of an answer -/

/-- The type of an answer is the one of the response: every route the server makes leaves room for the server
root. -/
def HttpResponse.Short (res : HttpResponse) : Prop :=
  res.route.head? = some slash → SERVER_ROOT.length + res.route.length < ROUTE_SIZE

theorem Response.short {json : HttpResponse} (h : json.Short) (page : Response) : (page.http json).Short := by
  cases page with
  | update => exact h
  | _ => exact fun _ => of_decide_eq_true rfl

theorem short_responseUpdate {d : ServerData} (h : d.Values) : (responseUpdate d h).Short := by
  intro hhead
  have hopen : Json.openBrace = slash := by
    have htext : (updateText d).head? = some slash := hhead
    rw [updateText_eq] at htext
    exact Option.some.inj htext
  exact absurd hopen (by decide)

theorem mimeIndex_eq {res : HttpResponse} (h : res.Short) : res.mimeIndex = res.mimeType.value := by
  by_cases hhead : res.route.head? = some slash
  · exact mimeIndex_eq_of_short (h hhead)
  · exact if_neg hhead

theorem httpMimeTypes_value (m : HttpMimeType) : httpMimeTypes[m.value]? = some (httpMimeTypes.getD m.value []) := by
  cases m <;> rfl

theorem httpMimeTypes_ok (m : HttpMimeType) : newline ∉ httpMimeTypes.getD m.value [] ∧
    (httpMimeTypes.getD m.value []).head? ≠ some blank := by
  cases m <;> decide

theorem httpConn_ok (conn : HttpConn) : newline ∉ httpConn conn ∧ (httpConn conn).head? ≠ some blank := by
  cases conn <;> decide

/-- The header and the body are the lines of the message. -/
theorem text_reply (c : Call) (res : HttpResponse) (bytes : List UInt8) :
    headerText (httpCode res.code) c.time.text (httpMimeTypes.getD res.mimeType.value []) (httpConn res.conn)
      bytes.length ++ bytes = (c.reply res bytes).text := by
  simp only [headerText, Reply.text, Call.reply, List.map_cons, List.map_nil, Reader.joined, fieldText,
    List.flatten_cons, List.flatten_nil, List.append_assoc, List.append_nil, List.nil_append]
  rfl

theorem announced_reply (c : Call) (res : HttpResponse) (bytes : List UInt8) :
    announced lengthField (c.reply res bytes).fields = some (c.reply res bytes).body.length := by
  have hlookup : (c.reply res bytes).fields.lookup lengthField = some (formatInt 0 bytes.length) := rfl
  have hdigits : formatInt 0 bytes.length ≠ [] ∧ (formatInt 0 bytes.length).all isDigit = true := by
    constructor
    · rw [formatInt_natCast]
      exact List.append_ne_nil_of_right_ne_nil _ (decimal_ne_nil _)
    · exact List.all_eq_true.2 fun c hc => isDigit_of_mem_formatInt hc
  rw [announced, hlookup, Option.bind_some, if_pos hdigits, number_formatInt]
  rfl

theorem reply_wellFormed {c : Call} (hday : c.time.text.head? ≠ some blank) (res : HttpResponse) (bytes : List UInt8) :
    (c.reply res bytes).WellFormed lengthField := by
  have hnumber : newline ∉ formatInt 0 bytes.length ∧ (formatInt 0 bytes.length).head? ≠ some blank := by
    refine ⟨newline_not_mem_formatInt _, fun hhead => ?_⟩
    have hdigit := isDigit_of_mem_formatInt (List.mem_of_mem_head? hhead)
    exact absurd hdigit (by decide)
  constructor
  · show lineEnd ∉ httpVersion ++ httpCode res.code
    rw [List.mem_append, not_or]
    exact ⟨by decide, (httpCode_fits res.code).2.1⟩
  · exact List.cons_ne_nil _ _
  · intro field hfield
    have hname : ∀ name ∈ [serverField, dateField, lengthField, typeField, languageField, connectionField],
        name ≠ [] ∧ colon ∉ name ∧ lineEnd ∉ name := by decide
    exact hname field.1 (List.mem_map_of_mem (f := Prod.fst) hfield)
  · simp only [Call.reply, List.forall_mem_cons, List.not_mem_nil, false_imp_iff, implies_true, and_true]
    exact ⟨by decide, ⟨c.time.line, hday⟩, hnumber, httpMimeTypes_ok res.mimeType, by decide, httpConn_ok res.conn⟩
  · exact announced_reply c res bytes

/-! ## A call of `response` -/

section
variable {c : Call} {res : HttpResponse} {bytes : List UInt8}

theorem mime_of_short (h : res.Short) :
    httpMimeTypes[res.mimeIndex]? = some (httpMimeTypes.getD res.mimeType.value []) := by
  rw [mimeIndex_eq h]
  exact httpMimeTypes_value res.mimeType

/-- Its `send()` hands the message to the peer. -/
theorem sent_of_sends (hshort : res.Short) (h : c.Sends res bytes) (u : Leftover) :
    ∃ a, response c u res = some a ∧ a.returned.isSome = true ∧ a.Failed = false ∧
      a.sent = (c.reply res bytes).text := by
  obtain ⟨n, hsize, hlt, haccepted⟩ := h.accepted
  have hmime := mime_of_short hshort
  obtain ⟨f, mime, hf, hm, hn⟩ := size_eq_some.1 hsize
  rw [h.loaded, Option.some.injEq] at hf
  rw [hmime, Option.some.injEq] at hm
  subst hf hm
  obtain ⟨a, ha, hreturned, hholds, -, -⟩ := response_granted h.loaded hmime u rfl h.granted (by omega)
  rw [hn, write_whole hlt haccepted, Option.map_some] at hreturned
  have hne : (n : Int) ≠ -1 := by omega
  refine ⟨a, ha, by rw [hreturned]; rfl, ?_, ?_⟩
  · rw [Attempt.Failed, hreturned]
    simp [hne]
  · have hlength : (c.reply res bytes).text.length = n := by
      rw [← text_reply, List.length_append]
      exact hn
    rw [Attempt.sent, hreturned]
    change (List.range n).map a.answer = _
    rw [← hlength, ← text_reply]
    exact holds_iff_map_range.1 hholds

/-- A refused one hands nothing over. -/
theorem sent_of_refused (h : c.Refused res) (u : Leftover) :
    ∃ a, response c u res = some a ∧ a.returned.isSome = true ∧ a.Failed = true ∧ a.sent = [] := by
  obtain ⟨n, hsize, hrefused⟩ := h
  obtain ⟨f, mime, hf, hm, hn⟩ := size_eq_some.1 hsize
  by_cases hno : c.granted = false ∨ 2 ^ 31 ≤ n
  · have hmalloc : malloc c.granted (intAdd (headerText (httpCode res.code) c.time.text mime (httpConn res.conn)
        f.bytes.length).length f.bytes.length) = none := by
      rcases hno with hg | hge
      · rw [hg, malloc_refused]
      · exact malloc_size hf hm (by omega) _
    exact ⟨_, response_refused hf hm u hmalloc, rfl, rfl, rfl⟩
  · obtain ⟨hg, hlt⟩ := not_or.1 hno
    have hfailed : c.sends.head? = some .failed := (hrefused.resolve_left hg).resolve_left hlt
    obtain ⟨a, ha, hreturned, -, -, -⟩ := response_granted hf hm u rfl (Bool.eq_true_of_not_eq_false hg) (by omega)
    obtain ⟨sends, hsends⟩ : ∃ sends, c.sends = .failed :: sends := by
      cases hc : c.sends with
      | nil => simp [hc] at hfailed
      | cons r sends => exact ⟨sends, by rw [hc, List.head?_cons, Option.some.injEq] at hfailed; rw [hfailed]⟩
    rw [hsends, write, writeLoop_failed, Option.map_some] at hreturned
    refine ⟨a, ha, by rw [hreturned]; rfl, ?_, ?_⟩
    · rw [Attempt.Failed, hreturned]
      rfl
    · rw [Attempt.sent, hreturned]
      rfl

end

/-! ## A round -/

/-- Only the route that the request has is found in it. -/
theorem routeIs_eq {route : Nat → UInt8} {R s : List UInt8} (h : routeIs route R = true) (hR : 0 ∉ R) (hs : 0 ∉ s) :
    routeIs route s = decide (R = s) := by
  by_cases heq : R = s
  · subst heq
    rw [h, decide_eq_true rfl]
  · rw [decide_eq_false heq, Bool.eq_false_iff]
    exact fun hroute => heq (routeIs_inj h hroute hR hs)

theorem Message.servesAs_request (m : Message) : ServesAs m.request m := by
  refine ⟨rfl, ?_⟩
  rw [routeIs, Bool.and_eq_true, List.all_eq_true]
  constructor
  · exact fun i _ => decide_eq_true rfl
  · exact decide_eq_true (List.getD_eq_default _ _ (le_refl _))

/-- The round depends on the two words of its request. -/
theorem handle_eq {req req' : HttpRequest} {m : Message} (h : ServesAs req m) (h' : ServesAs req' m) (d : ServerData) :
    handle req d = handle req' d := by
  have hroute (s : List UInt8) (hs : 0 ∉ s) : routeIs req.route s = routeIs req'.route s := by
    rw [routeIs_eq h.2 m.noNul.2.1 hs, routeIs_eq h'.2 m.noNul.2.1 hs]
  unfold handle
  rw [h.1, h'.1, hroute dcRoute (by decide), hroute rootRoute (by decide), hroute updateRoute (by decide),
    hroute faviconRoute (by decide), hroute image404Route (by decide), hroute maxClientsImageRoute (by decide)]

theorem Visit.short (v : Visit) : v.response.Short := Response.short (short_responseUpdate v.values) _

/-- What a round sends is the message it answers with. -/
theorem round_sent {v : Visit} {r : Reply} (h : v.Answers r) {req : HttpRequest} (hserves : ServesAs req v.message) :
    (round v.sending req v.data).done = true ∧ (round v.sending req v.data).sent = r.text := by
  have hpage : (handle req v.data).2.http v.sending.json = v.response := by
    rw [handle_eq hserves v.message.servesAs_request]
    rfl
  unfold round
  simp only [hpage]
  rcases h with ⟨bytes, hsends, rfl⟩ | ⟨hrefused, bytes, hsends, rfl⟩
  · obtain ⟨a, ha, hreturned, hfailed, hsent⟩ := sent_of_sends v.short hsends v.leftover
    have hfirst : Server.response v.sending.call v.sending.leftover v.response = some a := ha
    constructor
    · simp [Round.done, hfirst, hreturned, hfailed]
    · simp [Round.sent, hfirst, hfailed, hsent]
  · have hnotFound : responseNotFound.Short := fun _ => by decide
    obtain ⟨a, ha, hreturned, hfailed, hsent⟩ := sent_of_refused hrefused v.leftover
    obtain ⟨b, hb, hreturned', -, hsent'⟩ := sent_of_sends hnotFound hsends v.retryLeftover
    have hfirst : Server.response v.sending.call v.sending.leftover v.response = some a := ha
    have hsecond : Server.response v.sending.retry v.sending.retryLeftover responseNotFound = some b := hb
    constructor
    · simp [Round.done, hfirst, hsecond, hreturned, hreturned', hfailed]
    · simp [Round.sent, hfirst, hsecond, hfailed, hsent, hsent']

/-! ## A connection -/

theorem Visit.parsed (v : Visit) (req : HttpRequest) :
    (request (.received v.recv.bytes) v.recv.stack req).ret = some 0 ∧
      ServesAs (request (.received v.recv.bytes) v.recv.stack req).req v.message := by
  have hbuf : v.recv.buffer = v.message.method ++ space :: (v.message.route ++ space ::
      (v.message.rest ++ v.recv.stack.drop v.recv.bytes.length)) := by
    rw [Recv.buffer, v.arrives, Message.bytes]
    simp
  have h0 : 0 ∉ v.message.method ++ space :: (v.message.route ++ [space]) := by
    simp [v.message.noNul.1, v.message.noNul.2.1, space]
  obtain ⟨hret, hmethod, hroute⟩ := request_words v.terminated hbuf v.message.method_ne
    (fun hmem => v.message.method_noSpace (List.mem_of_mem_tail hmem)) v.message.route_noSpace h0 req
  exact ⟨hret, hmethod, hroute⟩

theorem Visit.Answers.wellFormed {v : Visit} {r : Reply} (h : v.Answers r) : r.WellFormed lengthField := by
  rcases h with ⟨bytes, hsends, rfl⟩ | ⟨-, bytes, hsends, rfl⟩
  · exact reply_wellFormed hsends.day _ bytes
  · exact reply_wellFormed hsends.day _ bytes

/-- The rounds send the messages, by induction on them. -/
theorem connection_sent {vs : List Visit} {rs : List Reply} (h : List.Forall₂ Visit.Answers vs rs) (req : HttpRequest) :
    (connection vs req).map Round.sent = rs.map Reply.text := by
  induction h generalizing req with
  | nil => rfl
  | @cons v r vs rs hv _ ih =>
    obtain ⟨hret, hserves⟩ := v.parsed req
    obtain ⟨hdone, hsent⟩ := round_sent hv hserves
    rw [connection, if_pos hret, List.map_cons]
    simp only [hdone, if_true, List.map_cons, hsent, ih]

theorem answers_wellFormed {vs : List Visit} {rs : List Reply} (h : List.Forall₂ Visit.Answers vs rs) :
    ∀ r ∈ rs, r.WellFormed lengthField := by
  induction h with
  | nil => exact fun _ hr => absurd hr List.not_mem_nil
  | cons hv _ ih => exact List.forall_mem_cons.2 ⟨hv.wellFormed, ih⟩

theorem size_missingCall (sends : List SendResult) : (missingCall sends).size responseNotFound = some 174 := by
  have hmime : httpMimeTypes[responseNotFound.mimeIndex]? = some (httpMimeTypes.getD 0 []) := by decide
  have hloaded : loaded (missingCall sends).files responseNotFound = some { bytes := [60, 62] } := by
    change loaded (onlyFile notFoundRoute [60, 62]) responseNotFound = _
    decide
  have hdigits : (formatInt 0 (([60, 62] : List UInt8).length : Int)).length = 1 := by
    rw [formatInt_length]
    simp [signText, decimal]
  refine size_eq_some.2 ⟨_, _, hloaded, hmime, ?_⟩
  rw [headerText_length, hdigits, (missingCall sends).time.length]
  decide

theorem zeroStack_le : REQUEST_SIZE ≤ (List.replicate REQUEST_SIZE (0 : UInt8)).length := by rw [List.length_replicate]

theorem getRoot_bytes_ne : getRoot.bytes ≠ [] := by decide

theorem getRoot_bytes_le : getRoot.bytes.length ≤ REQUEST_SIZE := by decide

theorem postDc_bytes_ne : postDc.bytes ≠ [] := by decide

theorem postDc_bytes_le : postDc.bytes.length ≤ REQUEST_SIZE := by decide

/-- The two messages, each received over a cleared buffer -/
def getRootRecv : Recv :=
  ⟨getRoot.bytes, List.replicate REQUEST_SIZE 0, getRoot_bytes_ne, getRoot_bytes_le, zeroStack_le⟩

def postDcRecv : Recv :=
  ⟨postDc.bytes, List.replicate REQUEST_SIZE 0, postDc_bytes_ne, postDc_bytes_le, zeroStack_le⟩

theorem getRootRecv_terminated : getRootRecv.Terminated := by
  rw [Recv.Terminated]
  decide +kernel

theorem postDcRecv_terminated : postDcRecv.Terminated := by
  rw [Recv.Terminated]
  decide +kernel

def unwritten : Leftover := ⟨0, fun _ => 0, fun _ => 0⟩

/-- `GET /`, one `send()` taking the page -/
def rootVisit : Visit where
  message := getRoot
  recv := getRootRecv
  arrives := rfl
  terminated := getRootRecv_terminated
  data := { maxClients := 1 }
  seen := coldData
  values := coldData_values
  call := indexCall [.accepted 167]
  leftover := unwritten
  retry := missingCall []
  retryLeftover := unwritten

/-- `POST /dc`, without the memory for the first answer -/
def dcVisit : Visit where
  message := postDc
  recv := postDcRecv
  arrives := rfl
  terminated := postDcRecv_terminated
  data := { maxClients := 1, clientCount := 1 }
  seen := coldData
  values := coldData_values
  call := { missingCall [] with granted := false }
  leftover := unwritten
  retry := missingCall [.accepted 174]
  retryLeftover := unwritten

theorem rootVisit_answers : rootVisit.Answers (rootVisit.call.reply responseRoot [111, 107]) := by
  have hresponse : rootVisit.response = responseRoot := rfl
  have hday : epoch.text.head? ≠ some blank := by decide
  rw [Visit.Answers, hresponse]
  refine .inl ⟨[111, 107], ⟨loaded_indexCall _, rfl, ⟨167, size_indexCall _, by decide, rfl⟩, hday⟩, rfl⟩

theorem dcVisit_answers : dcVisit.Answers (dcVisit.retry.reply responseNotFound [60, 62]) := by
  have hresponse : dcVisit.response = responseNotFound := rfl
  have hday : epoch.text.head? ≠ some blank := by decide
  have hloaded : loaded (onlyFile notFoundRoute [60, 62]) responseNotFound = some { bytes := [60, 62] } := by decide
  rw [Visit.Answers, hresponse]
  refine .inr ⟨⟨174, size_missingCall [], .inl rfl⟩, [60, 62], ⟨hloaded, rfl, ⟨174, size_missingCall _, by decide, rfl⟩,
    hday⟩, rfl⟩

end Td3.Server

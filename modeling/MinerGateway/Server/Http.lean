import MinerGateway.Gateway.Session

/-!
Requests that arrive over HTTP.

The body of a request is one call or a batch of them; its first character that is no blank decides
which. A call without an id that can be used is a notification and gets no response. Of a batch, the
calls are answered one after another and the responses go back in one list.

Left out are methods other than the posting of a body, the headers, and lasting connections. What is
sent back is the status and the body (`HttpBody`).
-/

namespace MinerGateway

/-- What goes back for a body. -/
inductive HttpBody where
  /-- Nothing was asked. -/
  | empty
  | single (response : Rpc.Response)
  | batch (responses : List Rpc.Response)

/-- The answer to an HTTP request. -/
structure HttpReply where
  status : Nat
  body : HttpBody

namespace HttpBody

def write : HttpBody → String
  | .empty => ""
  | .single response => response.write
  | .batch responses =>
    String.ofList ('[' :: Json.joinItems (responses.map fun r => r.write.toList) ++ [']'])

/-- A failure that belongs to no call. -/
def fault (failure : Rpc.Failure) : HttpBody := .single ⟨.null, .error failure⟩

end HttpBody

namespace World

/-- Makes a call and lets the gateway settle. A call that is not answered gives no response. -/
def ask (w : World) (call : Rpc.Call) : Option Rpc.Response × World :=
  let (index, w) := w.makeCall (.ofRpc (some call))
  let w := w.settle
  match w.calls[index]?.bind Call.answer? with
  | some (.response response) => (some response, w)
  | _ => (none, w)

/-- Answers one element of a batch. -/
def answerElement (w : World) (value : Json.Value) : Option Rpc.Response × World :=
  match Rpc.Call.ofJson? value with
  | some call => w.ask call
  | none =>
    if Rpc.isNotification value then (none, w)
    else (some ⟨(Rpc.strayId? value).getD .null, .error .invalidRequest⟩, w)

def answerBatch (w : World) : List Json.Value → List Rpc.Response × World
  | [] => ([], w)
  | value :: rest =>
    let (response, w) := w.answerElement value
    let (responses, w) := w.answerBatch rest
    (response.toList ++ responses, w)

def answerObject (w : World) (value : Json.Value) : HttpBody × World :=
  match Rpc.Call.ofJson? value with
  | some call =>
    match w.ask call with
    | (some response, w) => (.single response, w)
    | (none, w) => (.empty, w)
  | none =>
    if Rpc.isNotification value then (.empty, w)
    else match Rpc.strayId? value with
      | some id => (.single ⟨id, .error .invalidRequest⟩, w)
      | none => (.fault .parseError, w)

def answerArray (w : World) : List Json.Value → HttpBody × World
  | [] => (.fault .invalidRequest, w)
  | items =>
    match w.answerBatch items with
    | ([], w) => (.empty, w)
    | (responses, w) => (.batch responses, w)

def answerHttp (w : World) (body : String) : HttpReply × World :=
  let text := Json.skipBlanks body.toList
  match text, Json.Value.parse text with
  | '\x7b' :: _, some value =>
    let (body, w) := w.answerObject value
    (⟨200, body⟩, w)
  | '[' :: _, some (.array items) =>
    let (body, w) := w.answerArray items
    (⟨200, body⟩, w)
  | '\x7b' :: _, _ => (⟨200, .fault .parseError⟩, w)
  | '[' :: _, _ => (⟨200, .fault .parseError⟩, w)
  | _, _ => (⟨400, .fault .parseError⟩, w)

def answerHttpAll (w : World) : List String → List HttpReply × World
  | [] => ([], w)
  | body :: rest =>
    let (reply, w) := w.answerHttp body
    let (replies, w) := w.answerHttpAll rest
    (reply :: replies, w)

end World

end MinerGateway

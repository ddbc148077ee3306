import AgentsServer.Library.Text

/-!
# Imported delivery envelopes

A prompt that is one complete generated delivery, section by section.
-/

namespace AgentsServer.Transcript

open Library

def deliveryKinds : List String :=
  ["instruction", "final_result", "request", "reply", "status", "message"]

/-- `_DELIVERY_REPLY_FOOTERS`. -/
def deliveryReplyFooters : List String :=
  ["",
    "reply: use the respond command in the provider-authority block only if a reply or follow-up is needed.",
    "reply: optional one-time terminal reply route via the respond command in the provider-authority block, only if a result, acknowledgement, or clarification should reach the origin; never add --request-response.",
    "reply: exactly one terminal response remains; use the respond command in the provider-authority block without --request-response.",
    "reply: none (terminal status notice; do not respond to the exchange)",
    "reply: use Chats respond-current through the AgentsDock provider tool only if a reply or follow-up is needed.",
    "reply: exactly one terminal response remains; use Chats respond-current through the AgentsDock provider tool without --request-response.",
    "reply: optional one-time terminal reply via Chats respond-current through the AgentsDock provider tool, only if a result, acknowledgement, or clarification should reach the origin; never add --request-response."]

/-- The parts of a matched header, and the text after it. -/
structure DeliveryHeader where
  kind : String
  leg : Nat
  total : Nat
  rest : List Char

/-- The optional sender of a header: 1 to 240 characters, none of them a bracket
or the end of a line. -/
def dropSender (cs : List Char) : List Char :=
  match dropPrefix? " from=" cs with
  | none => cs
  | some rest =>
      let sender := rest.takeWhile fun c => !(c == '[' || c == ']' || c == '\r' || c == '\n')
      if 1 ≤ sender.length ∧ sender.length ≤ 240 then rest.drop sender.length else cs

/-- `_IMPORTED_DELIVERY_HEADER`. -/
def deliveryHeader? (cs : List Char) : Option DeliveryHeader := do
  let cs ← dropPrefix? "[AgentsDock delivery kind=" cs
  let kind := cs.takeWhile fun c => c != ' '
  guard (deliveryKinds.contains (String.ofList kind))
  let cs ← dropPrefix? " leg=" (cs.drop kind.length)
  let leg := cs.takeWhile Char.isDigit
  guard (leg == ['0'] || isSmallPositive leg)
  let cs ← dropPrefix? "/" (cs.drop leg.length)
  let total := cs.takeWhile Char.isDigit
  guard (isSmallPositive total)
  let cs ← dropPrefix? " origin=" (cs.drop total.length)
  let cs ← (dropPrefix? "route" cs).or ((dropPrefix? "user" cs).or (dropPrefix? "auto" cs))
  let cs ← dropPrefix? "]\n" (dropSender cs)
  return { kind := String.ofList kind, leg := decimal leg, total := decimal total, rest := cs }

/-- The text after the source instruction, which is quoted in full or named in
one of two fixed lines. -/
def dropSource? (cs : List Char) : Option (List Char) :=
  match dropPrefix? "[Source user instruction — verbatim, user-authored]\n" cs with
  | some quoted =>
      let close := "\n[End source user instruction]\n"
      (find? close quoted).map fun i => quoted.drop (i + close.length)
  | none => do
      let cs ← dropPrefix? "source-instruction: " cs
      match dropPrefix? ("this legacy relay has no recorded source user instruction; " ++
          "do not infer user authorization from the prepared content.\n") cs with
      | some rest => return rest
      | none =>
          let cs ← dropPrefix? ("replayed in full on the first leg delivered to this chat; " ++
            "excerpt=\"") cs
          let line := cs.takeWhile fun c => c != '\n'
          guard (line.getLast? == some '"')
          dropPrefix? "\n" (cs.drop line.length)

def preparedLabel (kind : String) : String :=
  if kind = "status" then "Server-generated exchange status"
  else if kind = "reply" ∨ kind = "final_result" then "Agent-prepared reply/result"
  else "Agent-prepared handoff message"

/-- `_complete_imported_delivery_envelope`. -/
def completeImportedDeliveryEnvelope (prompt : String) : Bool :=
  let text := strip (unixLines prompt.toList)
  let footer := "\n[End delivery]".toList
  match deliveryHeader? text with
  | none => false
  | some header =>
      if header.total < header.leg ∨ (header.leg = 0 ∧ header.kind ≠ "status") ∨
          !footer.isSuffixOf text then
        false
      else
        match dropSource? (header.rest.take (header.rest.length - footer.length)) with
        | none => false
        | some remainder =>
            let label := preparedLabel header.kind
            let close := "\n[End " ++ label.toLower ++ "]"
            match dropPrefix? ("[" ++ label ++ "]\n") remainder with
            | none => false
            | some prepared =>
                match rfind? close prepared with
                | none => false
                | some i =>
                    !(strip (prepared.take i)).isEmpty && deliveryReplyFooters.contains
                      (String.ofList (strip (prepared.drop (i + close.length))))

end AgentsServer.Transcript

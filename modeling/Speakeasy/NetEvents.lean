import Speakeasy.ProfilerEvents
import Speakeasy.RecordedOnce

namespace Speakeasy

abbrev NetText := List Char

structure NetDnsEvent where
  pos : TracePosition
  query : NetText
  response : Option NetText

inductive NetHttpProtocol
  | http
  | https
deriving DecidableEq

/-- A reference to an artifact is its bytes. -/
structure NetHttpEvent where
  pos : TracePosition
  server : NetText
  port : Int
  proto : NetHttpProtocol
  headers : Option NetText
  dataRef : Option (List UInt8)

/-- The events of a run that a lookup or a request can find. -/
inductive NetEvent
  | dns (e : NetDnsEvent)
  | http (e : NetHttpEvent)

/-- `x if x else None`. -/
def textOrNone (text : NetText) : Option NetText := if text = [] then none else some text

def httpBodyLimit : Nat := 0x3000

def NetEvent.isLookup (domain : NetText) (response : Option NetText) : NetEvent → Bool
  | .dns e => decide (e.query = domain ∧ e.response = response)
  | .http _ => false

def NetHttpEvent.key (e : NetHttpEvent) : NetText × Int × NetHttpProtocol × Option NetText :=
  (e.server, e.port, e.proto, e.headers)

def NetEvent.isRequest (key : NetText × Int × NetHttpProtocol × Option NetText) : NetEvent → Bool
  | .dns _ => false
  | .http e => decide (e.key = key)

def recordDnsEvent (events : List NetEvent) (pos : TracePosition) (domain ip : NetText) :
    List NetEvent :=
  if events.any (NetEvent.isLookup domain (some ip)) then events
  else events ++ [.dns ⟨pos, domain, textOrNone ip⟩]

def recordHttpEvent (events : List NetEvent) (pos : TracePosition) (server : NetText) (port : Int)
    (headers : NetText) (body : List UInt8) (secure : Bool) : List NetEvent :=
  let event : NetHttpEvent :=
    { pos, server, port
      proto := if secure then .https else .http
      headers := textOrNone headers
      dataRef := putBinaryData body httpBodyLimit }
  if events.any (NetEvent.isRequest event.key) then events else events ++ [.http event]

/-- A call on a run. -/
inductive NetCall
  | dns (pos : TracePosition) (domain ip : NetText)
  | http (pos : TracePosition) (server : NetText) (port : Int) (headers : NetText)
      (body : List UInt8) (secure : Bool)

namespace NetCall

def apply (events : List NetEvent) : NetCall → List NetEvent
  | .dns pos domain ip => recordDnsEvent events pos domain ip
  | .http pos server port headers body secure =>
    recordHttpEvent events pos server port headers body secure

/-- The query and the response of a lookup, which are empty for one that failed. -/
def lookup : NetCall → Option (NetText × NetText)
  | .dns _ domain ip => some (domain, ip)
  | .http .. => none

/-- What tells a request from another one. -/
def request : NetCall → Option (NetText × Int × NetHttpProtocol × Option NetText)
  | .dns .. => none
  | .http _ server port headers _ secure =>
    some (server, port, if secure then .https else .http, textOrNone headers)

end NetCall

def netEvents (calls : List NetCall) : List NetEvent := calls.foldl NetCall.apply []

/-- There is one event for each lookup and each request that was recorded, and no other one. -/
structure NetEventLaw (calls : List NetCall) : Prop where
  dns : ∀ query response : NetText,
    (netEvents calls).countP (NetEvent.isLookup query (textOrNone response)) =
      if ∃ call ∈ calls, call.lookup = some (query, response) then 1 else 0
  http : ∀ key, (netEvents calls).countP (NetEvent.isRequest key) =
    if ∃ call ∈ calls, call.request = some key then 1 else 0

namespace NetCall

/-- The event that a call makes, and the test for one that is there already. -/
def event : NetCall → NetEvent
  | .dns pos domain ip => .dns ⟨pos, domain, textOrNone ip⟩
  | .http pos server port headers body secure =>
    .http ⟨pos, server, port, if secure then .https else .http, textOrNone headers,
      putBinaryData body httpBodyLimit⟩

def found : NetCall → NetEvent → Bool
  | .dns _ domain ip => NetEvent.isLookup domain (some ip)
  | .http _ server port headers _ secure =>
    NetEvent.isRequest (server, port, if secure then .https else .http, textOrNone headers)

theorem netEvents_eq (calls : List NetCall) :
    netEvents calls = RecordedOnce.recordAll found event [] calls := by
  have hstep : apply = RecordedOnce.record found event := by
    funext events call
    cases call <;> rfl
  rw [netEvents, hstep, RecordedOnce.recordAll]

theorem textOrNone_inj {s t : NetText} (h : textOrNone s = textOrNone t) : s = t := by
  unfold textOrNone at h
  by_cases hs : s = []
  · by_cases ht : t = []
    · rw [hs, ht]
    · rw [if_pos hs, if_neg ht] at h
      cases h
  · by_cases ht : t = []
    · rw [if_neg hs, if_pos ht] at h
      cases h
    · rw [if_neg hs, if_neg ht] at h
      exact Option.some.inj h

theorem isLookup_event {call : NetCall} {query response : NetText} :
    NetEvent.isLookup query (textOrNone response) call.event = true ↔
      call.lookup = some (query, response) := by
  cases call with
  | dns pos domain ip =>
    simp only [event, NetEvent.isLookup, lookup, decide_eq_true_eq, Option.some.injEq, Prod.mk.injEq]
    exact and_congr_right fun _ => ⟨textOrNone_inj, fun h => by rw [h]⟩
  | http => simp [event, NetEvent.isLookup, lookup]

theorem isRequest_event {call : NetCall} {key : NetText × Int × NetHttpProtocol × Option NetText} :
    NetEvent.isRequest key call.event = true ↔ call.request = some key := by
  cases call with
  | dns => simp [event, NetEvent.isRequest, request]
  | http =>
    simp only [event, NetEvent.isRequest, request, decide_eq_true_eq, Option.some.injEq]
    exact Iff.rfl

theorem countP_requests (calls : List NetCall) (key : NetText × Int × NetHttpProtocol × Option NetText) :
    (netEvents calls).countP (NetEvent.isRequest key) =
      if ∃ call ∈ calls, call.request = some key then 1 else 0 := by
  have hseen : ∀ call : NetCall, NetEvent.isRequest key call.event = true →
      ∀ e, call.found e = NetEvent.isRequest key e := by
    intro call hcall e
    have hkey := isRequest_event.mp hcall
    cases call with
    | dns => cases hkey
    | http => exact congrArg (NetEvent.isRequest · e) (Option.some.inj hkey)
  have honce := @RecordedOnce.countP_recordAll_once _ _ _ _ _ [] calls hseen (Nat.zero_le 1)
  rw [netEvents_eq, honce]
  simp only [isRequest_event, List.countP_nil, Nat.lt_irrefl, or_false]

/-- A response that is not empty is found again. -/
theorem countP_lookups (calls : List NetCall) (query : NetText) {response : NetText}
    (hresponse : response ≠ []) :
    (netEvents calls).countP (NetEvent.isLookup query (textOrNone response)) =
      if ∃ call ∈ calls, call.lookup = some (query, response) then 1 else 0 := by
  have hnorm : textOrNone response = some response := if_neg hresponse
  have hseen : ∀ call : NetCall, NetEvent.isLookup query (textOrNone response) call.event = true →
      ∀ e, call.found e = NetEvent.isLookup query (textOrNone response) e := by
    intro call hcall e
    have hlookup := isLookup_event.mp hcall
    cases call with
    | dns pos domain ip =>
      obtain ⟨rfl, rfl⟩ := Prod.mk.inj (Option.some.inj hlookup)
      rw [hnorm]
      rfl
    | http => cases hlookup
  have honce := @RecordedOnce.countP_recordAll_once _ _ _ _ _ [] calls hseen (Nat.zero_le 1)
  rw [netEvents_eq, honce]
  simp only [isLookup_event, List.countP_nil, Nat.lt_irrefl, or_false]

def stored : NetEvent → Prop
  | .dns e => e.response ≠ some []
  | .http _ => True

/-- The test for a lookup that failed finds no event, so each of them adds one. -/
theorem countP_failed (calls : List NetCall) (query : NetText) :
    (netEvents calls).countP (NetEvent.isLookup query (textOrNone [])) =
      calls.countP fun call => decide (call.lookup = some (query, [])) := by
  have hmake : ∀ call ∈ calls, stored call.event := by
    intro call _
    cases call with
    | dns pos domain ip =>
      show textOrNone ip ≠ some []
      unfold textOrNone
      split
      next => exact fun h => by cases h
      next hip => exact fun h => hip (Option.some.inj h)
    | http => exact trivial
  have hseen : ∀ call : NetCall, NetEvent.isLookup query (textOrNone []) call.event = true →
      ∀ e, stored e → call.found e = false := by
    intro call hcall e he
    have hlookup := isLookup_event.mp hcall
    cases call with
    | dns pos domain ip =>
      obtain ⟨rfl, rfl⟩ := Prod.mk.inj (Option.some.inj hlookup)
      cases e with
      | dns e => exact decide_eq_false fun hfound => he hfound.2
      | http => rfl
    | http => cases hlookup
  have hcount := RecordedOnce.countP_recordAll_unseen (fun e he => absurd he List.not_mem_nil) hmake hseen
  rw [netEvents_eq, hcount, List.countP_nil, Nat.zero_add]
  exact List.countP_congr fun call _ => by rw [isLookup_event, decide_eq_true_eq]

end NetCall

/-- Each lookup and each request has one event exactly when no domain fails twice. -/
theorem netEvents_law_iff (calls : List NetCall) :
    NetEventLaw calls ↔
      ∀ query, (calls.countP fun call => decide (call.lookup = some (query, []))) ≤ 1 := by
  constructor
  · intro h query
    have hcount := h.dns query []
    rw [NetCall.countP_failed] at hcount
    split at hcount <;> omega
  · intro h
    refine ⟨fun query response => ?_, NetCall.countP_requests calls⟩
    by_cases hresponse : response = []
    · subst hresponse
      have hle := h query
      rw [NetCall.countP_failed]
      by_cases hex : ∃ call ∈ calls, call.lookup = some (query, [])
      · obtain ⟨call, hin, hcall⟩ := hex
        have hpos : 0 < calls.countP fun call => decide (call.lookup = some (query, [])) :=
          List.countP_pos_iff.mpr ⟨call, hin, decide_eq_true hcall⟩
        rw [if_pos ⟨call, hin, hcall⟩]
        omega
      · rw [if_neg hex, List.countP_eq_zero]
        exact fun call hin hcall => hex ⟨call, hin, of_decide_eq_true hcall⟩
    · exact NetCall.countP_lookups calls query hresponse

def lookupPosition : TracePosition := ⟨4, 8⟩

/-- The same name fails twice. -/
def failedTwice : List NetCall := [.dns lookupPosition ['a'] [], .dns lookupPosition ['a'] []]

theorem netEvents_not_law : ¬NetEventLaw failedTwice := by
  intro h
  have hcount := h.dns ['a'] []
  revert hcount
  decide

end Speakeasy

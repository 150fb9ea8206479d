import IcapService.AdaptationOutcome
import IcapService.Lib.Transition

/-! Clients of the adaptation service that share its queues.

A client consumes from the outcome queue before it publishes its request. The broker hands a reply to any
one of the consumers. -/

namespace IcapService

open CString DotNet Transition

/-- The file id that a reply carries. -/
def HeaderMap.fileId (headers : HeaderMap) : Option Guid :=
  match headers "file-id" with
  | some (.bytes data) => guidTryParse (getString data)
  | _ => none

/-- The `Received` handler: what is added to the queue of responses. The acknowledgement comes first and may
throw. -/
def received (headers : HeaderMap) (acked : Bool) : ReturnOutcome :=
  match process headers with
  | .error _ => .error
  | .ok response => if acked then response else .error

/-- Where a client stands in `Connect` and `AdaptationRequest`. -/
inductive ClientPhase where
  | connected
  | consuming
  | waiting
  | returned (outcome : ReturnOutcome)
  | thrown
  deriving DecidableEq

/-- A client with the replies that wait for its handler and the responses it has not taken. -/
structure RabbitMqClient where
  fileId : Guid
  phase : ClientPhase
  pending : List HeaderMap
  respQueue : List ReturnOutcome

namespace RabbitMqClient

def connect (fileId : Guid) : RabbitMqClient := ⟨fileId, .connected, [], []⟩

/-- The request is over. -/
def closed (c : RabbitMqClient) : Bool :=
  match c.phase with
  | .connected | .consuming | .waiting => false
  | .returned _ | .thrown => true

/-- The consumer of the client is known to the broker. -/
def consumes (c : RabbitMqClient) : Bool := c.phase ≠ .connected

end RabbitMqClient

/-- The clients, the ids of the published requests, the replies published so far and those of them that are
still in the outcome queue. -/
structure OutcomeExchange where
  clients : List RabbitMqClient
  requests : List Guid
  replies : List HeaderMap
  outcomeQueue : List HeaderMap

namespace OutcomeExchange

def idle : OutcomeExchange := ⟨[], [], [], []⟩

inductive Action where
  | connect (fileId : Guid)
  | consume (client : Nat)
  | publish (client : Nat)
  | answer (fileId : Guid) (headers : HeaderMap)
  | deliver (reply client : Nat)
  | receive (client reply : Nat) (acked : Bool)
  | take (client : Nat)
  | throw (client : Nat)

/-- A step of one client. -/
def act (s : OutcomeExchange) (i : Nat) (f : RabbitMqClient → Option RabbitMqClient) : Option OutcomeExchange :=
  match s.clients[i]? with
  | none => none
  | some c => (f c).map (fun c' => { s with clients := s.clients.set i c' })

/-- One action. The service may answer a published request at any time and more than once. -/
def step (s : OutcomeExchange) : Action → Option OutcomeExchange
  | .connect fileId => some { s with clients := s.clients ++ [.connect fileId] }
  | .consume i => s.act i (fun c => if c.phase = .connected then some { c with phase := .consuming } else none)
  | .publish i =>
      match s.clients[i]? with
      | none => none
      | some c =>
          if c.phase = .consuming then
            some { s with clients := s.clients.set i { c with phase := .waiting }, requests := c.fileId :: s.requests }
          else none
  | .answer fileId headers =>
      if fileId ∈ s.requests ∧ headers.fileId = some fileId then
        some { s with replies := headers :: s.replies, outcomeQueue := s.outcomeQueue ++ [headers] }
      else none
  | .deliver n i =>
      match s.outcomeQueue[n]?, s.clients[i]? with
      | some headers, some c =>
          if c.consumes then
            some { s with
              clients := s.clients.set i { c with pending := c.pending ++ [headers] }
              outcomeQueue := s.outcomeQueue.eraseIdx n }
          else none
      | _, _ => none
  | .receive i n acked =>
      s.act i (fun c => match c.pending[n]? with
        | none => none
        | some headers =>
            some { c with pending := c.pending.eraseIdx n, respQueue := c.respQueue ++ [received headers acked] })
  | .take i =>
      s.act i (fun c => match c.respQueue with
        | [] => none
        | response :: rest =>
            if c.phase = .waiting then some { c with phase := .returned response, respQueue := rest } else none)
  | .throw i => s.act i (fun c => if c.closed then none else some { c with phase := .thrown })

/-- A reply for the file with this outcome was published. -/
def Backed (replies : List HeaderMap) (fileId : Guid) (outcome : ReturnOutcome) : Prop :=
  ∃ headers ∈ replies, headers.fileId = some fileId ∧ process headers = .ok outcome

/-- Every outcome that was returned, apart from an error, is that of a reply for the file. -/
def Correlated (s : OutcomeExchange) : Prop :=
  ∀ c ∈ s.clients, ∀ outcome, c.phase = .returned outcome → outcome ≠ .error → Backed s.replies c.fileId outcome

/-- The reply of a delivery is for the file of the client, or it comes to nothing: it gives an error, the
client has a response already or its request is over. -/
def addressed (s : OutcomeExchange) : Action → Bool
  | .deliver n i =>
      match s.outcomeQueue[n]?, s.clients[i]? with
      | some headers, some c =>
          headers.fileId = some c.fileId || received headers true = .error || !c.respQueue.isEmpty || c.closed
      | _, _ => true
  | _ => true

def Addressed (s : OutcomeExchange) (a : Action) : Prop := s.addressed a = true

/-! ### The invariant -/

/-- What a client may return. -/
def Owed (replies : List HeaderMap) (fileId : Guid) (outcome : ReturnOutcome) : Prop :=
  outcome ≠ .error → Backed replies fileId outcome

/-- The response that the client takes next is owed to it; as long as there is none, each of the replies that
wait for the handler makes one. -/
structure Entitled (replies : List HeaderMap) (c : RabbitMqClient) : Prop where
  returned : ∀ outcome, c.phase = .returned outcome → Owed replies c.fileId outcome
  next : c.closed = false → ∀ response rest, c.respQueue = response :: rest → Owed replies c.fileId response
  pending : c.closed = false → c.respQueue = [] →
    ∀ headers ∈ c.pending, Owed replies c.fileId (received headers true)

structure Inv (s : OutcomeExchange) : Prop where
  entitled : ∀ c ∈ s.clients, Entitled s.replies c
  queued : ∀ headers ∈ s.outcomeQueue, headers ∈ s.replies

variable {replies : List HeaderMap} {fileId : Guid} {headers : HeaderMap} {c : RabbitMqClient}

/-- A reply for the file makes a response that is owed. -/
theorem owed_of_reply (member : headers ∈ replies) (own : headers.fileId = some fileId) :
    Owed replies fileId (received headers true) := by
  intro regular
  cases result : process headers with
  | error e => exact absurd (by rw [received, result]) regular
  | ok outcome =>
      refine ⟨headers, member, own, ?_⟩
      simp only [received, result, if_true]

/-- Without its acknowledgement a reply makes an error. -/
theorem owed_unacked (owed : Owed replies fileId (received headers true)) (acked : Bool) :
    Owed replies fileId (received headers acked) := by
  cases acked with
  | true => exact owed
  | false =>
      intro regular
      refine absurd ?_ regular
      rw [received]
      split <;> rfl

theorem Owed.later {outcome : ReturnOutcome} (owed : Owed replies fileId outcome) (reply : HeaderMap) :
    Owed (reply :: replies) fileId outcome := by
  intro regular
  obtain ⟨headers, member, own, result⟩ := owed regular
  exact ⟨headers, List.mem_cons_of_mem _ member, own, result⟩

theorem Entitled.later (entitled : Entitled replies c) (reply : HeaderMap) : Entitled (reply :: replies) c where
  returned outcome came := (entitled.returned outcome came).later reply
  next live response rest first := (entitled.next live response rest first).later reply
  pending live empty headers member := (entitled.pending live empty headers member).later reply

/-- A client that moves on within its request. -/
theorem Entitled.moved (entitled : Entitled replies c) (live : c.closed = false) {phase : ClientPhase}
    (unreturned : ∀ outcome, phase ≠ .returned outcome) : Entitled replies { c with phase := phase } where
  returned outcome came := absurd came (unreturned outcome)
  next _ := entitled.next live
  pending _ := entitled.pending live

/-- The handler adds its response behind those that are there. -/
theorem Entitled.answered (entitled : Entitled replies c) {n : Nat} (found : c.pending[n]? = some headers)
    (acked : Bool) :
    Entitled replies { c with
      pending := c.pending.eraseIdx n, respQueue := c.respQueue ++ [received headers acked] } where
  returned := entitled.returned
  next live response rest first := by
    cases queue : c.respQueue with
    | nil =>
        rw [queue] at first
        obtain ⟨rfl, -⟩ := List.cons.inj first
        exact owed_unacked (entitled.pending live queue headers (List.mem_of_getElem? found)) acked
    | cons front others =>
        rw [queue] at first
        obtain ⟨rfl, -⟩ := List.cons.inj first
        exact entitled.next live front others queue
  pending _ empty := absurd empty (by simp)

/-- What the client takes is owed to it. -/
theorem Entitled.taken (entitled : Entitled replies c) {response : ReturnOutcome} {rest : List ReturnOutcome}
    (queue : c.respQueue = response :: rest) (waiting : c.phase = .waiting) :
    Entitled replies { c with phase := .returned response, respQueue := rest } where
  returned outcome came := by
    cases came
    exact entitled.next (by rw [RabbitMqClient.closed, waiting]) response rest queue
  next live := nomatch live
  pending live := nomatch live

/-- A reply that is addressed leaves the client entitled. -/
theorem Entitled.delivered (entitled : Entitled replies c) (member : headers ∈ replies)
    (addressed : headers.fileId = some c.fileId ∨ received headers true = .error ∨ c.respQueue ≠ [] ∨ c.closed = true) :
    Entitled replies { c with pending := c.pending ++ [headers] } where
  returned := entitled.returned
  next := entitled.next
  pending live empty reply among := by
    rcases List.mem_append.mp among with before | new
    · exact entitled.pending live empty reply before
    · obtain rfl := List.mem_singleton.mp new
      rcases addressed with own | error | busy | closed
      · exact owed_of_reply member own
      · exact fun regular => absurd error regular
      · exact absurd empty busy
      · exact absurd (live.symm.trans closed) (by decide)

variable {s t : OutcomeExchange}

theorem entitled_set (inv : Inv s) {i : Nat} {c' : RabbitMqClient} (entitled : Entitled s.replies c') :
    ∀ c ∈ s.clients.set i c', Entitled s.replies c := by
  intro c member
  rcases List.mem_or_eq_of_mem_set member with old | rfl
  · exact inv.entitled c old
  · exact entitled

/-- A step of one client keeps the invariant if it leaves the client entitled. -/
theorem act_inv (inv : Inv s) {i : Nat} {f : RabbitMqClient → Option RabbitMqClient}
    (keeps : ∀ c c', Entitled s.replies c → f c = some c' → Entitled s.replies c') (pass : s.act i f = some t) :
    Inv t := by
  simp only [act] at pass
  split at pass
  · cases pass
  · rename_i c found
    obtain ⟨c', moved, rfl⟩ := Option.map_eq_some_iff.mp pass
    exact ⟨entitled_set inv (keeps c c' (inv.entitled c (List.mem_of_getElem? found)) moved), inv.queued⟩

theorem step_inv {a : Action} (inv : Inv s) (allowed : s.Addressed a) (pass : s.step a = some t) : Inv t := by
  cases a with
  | connect fileId =>
      cases pass
      refine ⟨fun c member => ?_, inv.queued⟩
      rcases List.mem_append.mp member with old | new
      · exact inv.entitled c old
      · obtain rfl := List.mem_singleton.mp new
        exact ⟨nofun, nofun, nofun⟩
  | consume i =>
      refine act_inv inv (fun c c' entitled moved => ?_) pass
      obtain ⟨fresh, eq⟩ := Option.ite_none_right_eq_some.mp moved
      cases eq
      exact entitled.moved (by rw [RabbitMqClient.closed, fresh]) nofun
  | publish i =>
      simp only [step] at pass
      split at pass
      · cases pass
      · rename_i c found
        obtain ⟨consuming, eq⟩ := Option.ite_none_right_eq_some.mp pass
        cases eq
        have entitled := inv.entitled c (List.mem_of_getElem? found)
        exact ⟨entitled_set inv (entitled.moved (by rw [RabbitMqClient.closed, consuming]) nofun), inv.queued⟩
  | answer fileId headers =>
      obtain ⟨-, eq⟩ := Option.ite_none_right_eq_some.mp pass
      cases eq
      refine ⟨fun c member => (inv.entitled c member).later headers, fun reply member => ?_⟩
      rcases List.mem_append.mp member with old | new
      · exact List.mem_cons_of_mem _ (inv.queued reply old)
      · obtain rfl := List.mem_singleton.mp new
        exact List.mem_cons_self
  | deliver n i =>
      simp only [step] at pass
      split at pass
      · rename_i headers c reply found
        obtain ⟨-, eq⟩ := Option.ite_none_right_eq_some.mp pass
        cases eq
        have member := inv.queued headers (List.mem_of_getElem? reply)
        have entitled := inv.entitled c (List.mem_of_getElem? found)
        have addressed : headers.fileId = some c.fileId ∨ received headers true = .error ∨ c.respQueue ≠ [] ∨
            c.closed = true := by
          simpa [Addressed, OutcomeExchange.addressed, reply, found, or_assoc] using allowed
        exact ⟨entitled_set inv (entitled.delivered member addressed),
          fun other among => inv.queued other (List.mem_of_mem_eraseIdx among)⟩
      · cases pass
  | receive i n acked =>
      refine act_inv inv (fun c c' entitled moved => ?_) pass
      split at moved
      · cases moved
      · rename_i headers found
        cases moved
        exact entitled.answered found acked
  | take i =>
      refine act_inv inv (fun c c' entitled moved => ?_) pass
      split at moved
      · cases moved
      · rename_i response rest queue
        obtain ⟨waiting, eq⟩ := Option.ite_none_right_eq_some.mp moved
        cases eq
        exact entitled.taken queue waiting
  | throw i =>
      refine act_inv inv (fun c c' entitled moved => ?_) pass
      split at moved
      · cases moved
      · rename_i live
        cases moved
        exact entitled.moved (by simpa using live) nofun

theorem idle_inv : Inv idle := ⟨nofun, nofun⟩

/-- In a run that only delivers addressed replies, every client returns the outcome of a reply for its
file. -/
theorem outcomes_correlated (s : OutcomeExchange) (reached : Reaches step Addressed idle s) : Correlated s := by
  have inv : Inv s := reached.inv idle_inv (fun _ _ _ inv allowed pass => step_inv inv allowed pass)
  intro c member outcome returned
  exact (inv.entitled c member).returned outcome returned

/-! ### Two clients -/

def firstId : Guid := ⟨0x737ba1cc492c42929a2cfc7bfc722dc6⟩

def secondId : Guid := ⟨0x0f8fad5bd9cb469fa16570867728950e⟩

def firstReply : HeaderMap := fun key =>
  if key = "file-id" then some (.bytes (ascii "737ba1cc-492c-4292-9a2c-fc7bfc722dc6"))
  else if key = "file-outcome" then some (.bytes (ascii "failed"))
  else none

def secondReply : HeaderMap := fun key =>
  if key = "file-id" then some (.bytes (ascii "0f8fad5b-d9cb-469f-a165-70867728950e"))
  else if key = "file-outcome" then some (.bytes (ascii "unmodified"))
  else none

/-- Both clients have published and both requests are answered. -/
def bothAnswered : List Action :=
  [.connect firstId, .connect secondId, .consume 0, .publish 0, .consume 1, .publish 1,
    .answer secondId secondReply, .answer firstId firstReply]

theorem outcomes_correlated_own :
    ∃ s, Reaches step Addressed idle s ∧ s.clients.map (·.phase) = [.returned .failed, .returned .unprocessed] ∧
      Correlated s := by
  have computed : (replay step addressed idle (bothAnswered ++
      [.deliver 1 0, .deliver 0 1, .receive 1 0 true, .receive 0 0 true, .take 0, .take 1])).map
      (fun s => s.clients.map (·.phase)) = some [.returned .failed, .returned .unprocessed] := by decide +kernel
  obtain ⟨s, replayed, phases⟩ := Option.map_eq_some_iff.mp computed
  have reached : Reaches step Addressed idle s := Reaches.of_replay (fun _ _ passed => passed) .here replayed
  exact ⟨s, reached, phases, outcomes_correlated s reached⟩

/-- The first client gets the reply of the second one: a file that failed is released. -/
theorem outcome_of_other_file :
    ∃ s, Reaches step (fun _ _ => True) idle s ∧
      s.clients.map (fun c => (c.fileId, c.phase)) = [(firstId, .returned .unprocessed), (secondId, .waiting)] ∧
      (∀ headers ∈ s.replies, headers.fileId = some firstId → process headers = .ok .failed) ∧ ¬ Correlated s := by
  have computed : (replay step (fun _ _ => true) idle (bothAnswered ++ [.deliver 0 0, .receive 0 0 true, .take 0])).map
      (fun s => (s.clients.map (fun c => (c.fileId, c.phase)), s.replies.map (fun headers =>
        (headers.fileId, process headers)))) =
      some ([(firstId, .returned .unprocessed), (secondId, .waiting)],
        [(some firstId, .ok .failed), (some secondId, .ok .unprocessed)]) := by decide +kernel
  obtain ⟨s, replayed, seen⟩ := Option.map_eq_some_iff.mp computed
  obtain ⟨clients, replies⟩ := Prod.mk.inj seen
  have own : ∀ headers ∈ s.replies, headers.fileId = some firstId → process headers = .ok .failed := by
    intro headers member same
    have listed : (headers.fileId, process headers) ∈ s.replies.map (fun h => (h.fileId, process h)) :=
      List.mem_map_of_mem member
    rw [replies, same] at listed
    simpa [firstId, secondId] using listed
  refine ⟨s, Reaches.of_replay (fun _ _ _ => trivial) .here replayed, clients, own, fun correlated => ?_⟩
  have first : (firstId, .returned .unprocessed) ∈ s.clients.map (fun c => (c.fileId, c.phase)) := by
    rw [clients]
    exact List.mem_cons_self
  obtain ⟨c, member, eq⟩ := List.mem_map.mp first
  obtain ⟨sameId, phase⟩ := Prod.mk.inj eq
  obtain ⟨headers, among, carried, result⟩ := correlated c member _ phase (by decide)
  rw [own headers among (carried.trans (congrArg some sameId))] at result
  cases result

end OutcomeExchange

end IcapService

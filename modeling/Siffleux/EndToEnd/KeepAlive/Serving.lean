import Siffleux.EndToEnd.KeepAlive.Backlog

/-!
# The two ends of a command stream

The client's task and the server's, over a transport that keeps the bytes in order and loses none;
where it cuts them is its own business, and a read may hold the end of one frame and several more.

* `KeepAlive.step` — the steps of the two tasks.
* `Serving` — both are in their loops, or the server on its way to it, and hear each other.
* `Moves` — what each step does to the two ends.  `Serving.client_step`, `Serving.server_step`,
  `Serving.assign_step` — whoever steps, they go on hearing each other.
-/

namespace Siffleux

open ByteBuf Framing Transition

open scoped List

namespace KeepAlive

/-- The steps of the two tasks; `callAssign` and `assignReturns` are the server's, before its
loop. -/
inductive Label where
  | client (l : CommandLabel)
  | server (l : CommandLabel)
  | callAssign
  | assignReturns (result : Except Error Unit)

def clientStep (p : Parties) (s : Handshake) (l : CommandLabel) : Option Handshake :=
  (s.client.step p.authKey p.ingressId l.forClient).map fun c => { s with client := c }

def serverStep (p : Parties) (s : Handshake) (l : ServerConnection.Label) : Option Handshake :=
  (s.server.step p.serverId p.registry.get l).map fun c => { s with server := c }

def step (p : Parties) (s : Handshake) : Label → Option Handshake
  | .client l =>
      if CommandEnd.carries s.server.written s.client.reads l then clientStep p s l else none
  | .server l =>
      if CommandEnd.carries s.client.written s.server.reads l then serverStep p s l.forServer
      else none
  | .callAssign => serverStep p s .callAssign
  | .assignReturns result => serverStep p s (.assignReturns result)

/-- The two tasks from where the handshake has left them: the client has just returned, and has read
nothing beyond the server's answer.  What a faster server does before that, it does here
afterwards. -/
def system (p : Parties) (s₀ : Handshake) : System Handshake Label := ⟨s₀, step p⟩

/-- Both ends are in their loops, or the server on its way to it, and hear each other. -/
structure Serving (s : Handshake) (c sv : CommandEnd) : Prop where
  client : s.client.endpoint = some c
  returned : ∃ result, s.client.auth = .returned result
  server : s.server.endpoint = some sv
  toClient : c.Hears sv.written
  toServer : sv.Hears c.written
  clientChats : CommandEnd.Chats c.written
  serverChats : CommandEnd.Chats sv.written
  unlost : c.lost = none ∧ sv.lost = none

/-- What a step does to the two ends. -/
inductive Moves (s s' : Handshake) (c sv : CommandEnd) : Label → CommandEnd → CommandEnd → Prop
  | client {l : CommandLabel} {c' : CommandEnd} (h : c.step l = some (some c'))
      (hl : CommandEnd.carries sv.written c.reads l = true) (hs : s'.server = s.server) :
      Moves s s' c sv (.client l) c' sv
  | server {l : CommandLabel} {sv' : CommandEnd} (h : sv.step l = some (some sv'))
      (hl : CommandEnd.carries c.written sv.reads l = true)
      (hs : s.server.assignStage = 0 ∧ s'.server.assignStage = 0) (hc : s'.client = s.client) :
      Moves s s' c sv (.server l) c sv'
  | callAssign (hs : s.server.assignStage = 2 ∧ s'.server.assignStage = 1)
      (hc : s'.client = s.client) : Moves s s' c sv .callAssign c sv
  | assignReturns {result : Except Error Unit}
      (hs : s.server.assignStage = 1 ∧ s'.server.assignStage = 0) (hc : s'.client = s.client) :
      Moves s s' c sv (.assignReturns result) c sv

variable {p : Parties} {s s' : Handshake} {c sv : CommandEnd} {l : Label}

lemma client_eq_of_endpoint {cc : ClientConnection} {e : CommandEnd} (h : cc.endpoint = some e) :
    e.lost = cc.lost ∧ e.reads = cc.reads ∧ e.written = cc.written := by
  rw [ClientConnection.endpoint] at h
  split at h <;> cases h <;> exact ⟨rfl, rfl, rfl⟩

lemma server_eq_of_endpoint {sc : ServerConnection} {e : CommandEnd} (h : sc.endpoint = some e) :
    e.lost = sc.lost ∧ e.reads = sc.reads ∧ e.written = sc.written := by
  rw [ServerConnection.endpoint] at h
  split at h <;> cases h <;> exact ⟨rfl, rfl, rfl⟩

lemma pollCommands_auth (cc : ClientConnection) (r : FramedRead) :
    (cc.pollCommands r).auth = cc.auth := by
  have hclose : ∀ code reason, (cc.hangUp code reason).auth = cc.auth := by
    intro code reason
    rw [ClientConnection.hangUp, ClientConnection.close]
    cases cc.lost <;> rfl
  rw [ClientConnection.pollCommands]
  split
  · rfl
  · rfl
  · exact hclose _ _
  · rfl
  · rfl
  · rw [ClientConnection.onCommandError]
    split_ifs
    · rfl
    · exact hclose _ _

/-- The command stream does not touch what the handshake has returned. -/
lemma auth_of_step {cc cc' : ClientConnection} {result : Except Error Tunnel} {l : CommandLabel}
    (hauth : cc.auth = .returned result)
    (hs : cc.step p.authKey p.ingressId l.forClient = some cc') : cc'.auth = .returned result := by
  have hstep := ClientConnection.step_cases hs
  cases l with
  | readData chunk =>
      cases hstep with
      | authData h => rw [h] at hauth; cases hauth
      | commandData => exact hauth
  | poll =>
      cases hstep with
      | authPolled h => rw [h] at hauth; cases hauth
      | commandPolled => rw [pollCommands_auth, hauth]
  | ping =>
      cases hstep with
      | pinged => exact hauth
  | pong =>
      cases hstep with
      | ponged => exact hauth

/-- A step of the server's loop is taken in it, and leads into it. -/
lemma assignStage_of_step {sc sc' : ServerConnection} {e : CommandEnd} {l : CommandLabel}
    (he : sc.endpoint = some e)
    (hs : sc.step p.serverId p.registry.get l.forServer = some sc') :
    sc.assignStage = 0 ∧ sc'.assignStage = 0 := by
  obtain ⟨lost, closeFrame, reads, written, handler, tunnel, assigned, assignResult⟩ := sc
  cases handler with
  | assign | assigning => cases l <;> cases hs
  | pong tunnelId r =>
      cases l <;> cases hs
      exact ⟨rfl, rfl⟩
  | commands tunnelId r =>
      refine ⟨rfl, ?_⟩
      cases l with
      | pong => cases hs
      | ping =>
          cases hs
          rfl
      | readData chunk =>
          simp only [CommandLabel.forServer, ServerConnection.step] at hs
          split_ifs at hs
          cases hs
          rfl
      | poll =>
          simp only [CommandLabel.forServer, ServerConnection.step, Option.some.injEq,
            ServerConnection.pollCommands] at hs
          split at hs
          · subst hs
            rfl
          · subst hs
            rfl
          · subst hs
            rfl
          · subst hs
            rfl
          · subst hs
            rfl
          · rw [ServerConnection.onCommandError] at hs
            split_ifs at hs <;> subst hs <;> rfl
  | _ => cases he

/-! ## One step -/

/-- The client's loop. -/
lemma Serving.client_step (h : Serving s c sv) {l : CommandLabel}
    (hs : KeepAlive.step p s (.client l) = some s') :
    ∃ c', Serving s' c' sv ∧ Moves s s' c sv (.client l) c' sv := by
  obtain ⟨-, hcreads, -⟩ := client_eq_of_endpoint h.client
  obtain ⟨-, -, hswritten⟩ := server_eq_of_endpoint h.server
  obtain ⟨result, hauth⟩ := h.returned
  simp only [KeepAlive.step, clientStep, Option.ite_none_right_eq_some,
    Option.map_eq_some_iff] at hs
  obtain ⟨hcarries, cc, hcc, rfl⟩ := hs
  rw [← hswritten, ← hcreads] at hcarries
  have hstep := CommandEnd.endpoint_client_step p.authKey p.ingressId hauth h.client l
  rw [hcc, Option.map_some] at hstep
  obtain ⟨c', hc'⟩ := Option.isSome_iff_exists.mp (h.toClient.stays h.serverChats hstep.symm)
  rw [hc'] at hstep
  obtain ⟨hlost, fs, hw, hfs⟩ := CommandEnd.written_of_step hstep.symm
  refine ⟨c', ⟨hc', ⟨result, auth_of_step hauth hcc⟩, h.server,
    h.toClient.hears h.serverChats hcarries hstep.symm, ?_, ?_, h.serverChats, ?_⟩,
    .client hstep.symm hcarries rfl⟩
  · rw [hw]
    exact h.toServer.send fs
  · rw [hw]
    exact h.clientChats.append h.toServer.sent_ne_nil hfs
  · rw [hlost]
    exact h.unlost

/-- The server's loop. -/
lemma Serving.server_step (h : Serving s c sv) {l : CommandLabel}
    (hs : KeepAlive.step p s (.server l) = some s') :
    ∃ sv', Serving s' c sv' ∧ Moves s s' c sv (.server l) c sv' := by
  obtain ⟨-, -, hcwritten⟩ := client_eq_of_endpoint h.client
  obtain ⟨-, hsreads, -⟩ := server_eq_of_endpoint h.server
  simp only [KeepAlive.step, serverStep, Option.ite_none_right_eq_some,
    Option.map_eq_some_iff] at hs
  obtain ⟨hcarries, cs, hcs, rfl⟩ := hs
  rw [← hcwritten, ← hsreads] at hcarries
  obtain ⟨hstage, hstage'⟩ := assignStage_of_step h.server hcs
  have hstep := CommandEnd.endpoint_server_step p.serverId p.registry.get h.server hstage l
  rw [hcs, Option.map_some] at hstep
  obtain ⟨sv', hsv'⟩ := Option.isSome_iff_exists.mp (h.toServer.stays h.clientChats hstep.symm)
  rw [hsv'] at hstep
  obtain ⟨hlost, fs, hw, hfs⟩ := CommandEnd.written_of_step hstep.symm
  refine ⟨sv', ⟨h.client, h.returned, hsv', ?_,
    h.toServer.hears h.clientChats hcarries hstep.symm, h.clientChats, ?_, ?_⟩,
    .server hstep.symm hcarries ⟨hstage, hstage'⟩ rfl⟩
  · rw [hw]
    exact h.toClient.send fs
  · rw [hw]
    exact h.serverChats.append h.toClient.sent_ne_nil hfs
  · rw [hlost]
    exact h.unlost

/-- `assign_tunnel` leaves the stream alone. -/
lemma Serving.withServer (h : Serving s c sv) {cs : ServerConnection}
    (hcs : cs.endpoint = s.server.endpoint) : Serving { s with server := cs } c sv :=
  ⟨h.client, h.returned, hcs.trans h.server, h.toClient, h.toServer, h.clientChats, h.serverChats,
    h.unlost⟩

/-- The server on its way to its loop. -/
lemma Serving.assign_step (h : Serving s c sv)
    (hl : l = .callAssign ∨ ∃ result, l = .assignReturns result)
    (hs : KeepAlive.step p s l = some s') : Serving s' c sv ∧ Moves s s' c sv l c sv := by
  rcases hl with rfl | ⟨result, rfl⟩
  · simp only [KeepAlive.step, serverStep, Option.map_eq_some_iff] at hs
    obtain ⟨cs, hcs, rfl⟩ := hs
    cases ServerConnection.step_cases hcs with
    | assignCalled hh =>
        refine ⟨h.withServer ?_, .callAssign ⟨?_, rfl⟩ rfl⟩
        · rw [ServerConnection.endpoint, ServerConnection.endpoint, hh]
        · rw [ServerConnection.assignStage, hh]
  · simp only [KeepAlive.step, serverStep, Option.map_eq_some_iff] at hs
    obtain ⟨cs, hcs, rfl⟩ := hs
    cases ServerConnection.step_cases hcs with
    | assignReturned hh =>
        refine ⟨h.withServer ?_, .assignReturns ⟨?_, rfl⟩ rfl⟩
        · rw [ServerConnection.endpoint, ServerConnection.endpoint, hh]
        · rw [ServerConnection.assignStage, hh]

/-- **Step lemma.**  Whatever is done, the two go on hearing each other. -/
theorem Serving.step (h : Serving s c sv) (hs : KeepAlive.step p s l = some s') :
    ∃ c' sv', Serving s' c' sv' ∧ Moves s s' c sv l c' sv' := by
  cases l with
  | client l =>
      obtain ⟨c', h', hm⟩ := h.client_step hs
      exact ⟨c', sv, h', hm⟩
  | server l =>
      obtain ⟨sv', h', hm⟩ := h.server_step hs
      exact ⟨c, sv', h', hm⟩
  | callAssign => exact ⟨c, sv, h.assign_step (Or.inl rfl) hs⟩
  | assignReturns result => exact ⟨c, sv, h.assign_step (Or.inr ⟨result, rfl⟩) hs⟩

/-- What an end has written it does not take back. -/
lemma Moves.written {c' sv' : CommandEnd} (h : Moves s s' c sv l c' sv') :
    c.written <+: c'.written ∧ sv.written <+: sv'.written := by
  cases h with
  | client h =>
      obtain ⟨-, fs, hw, -⟩ := CommandEnd.written_of_step h
      exact ⟨⟨fs, hw.symm⟩, List.prefix_refl _⟩
  | server h =>
      obtain ⟨-, fs, hw, -⟩ := CommandEnd.written_of_step h
      exact ⟨List.prefix_refl _, ⟨fs, hw.symm⟩⟩
  | callAssign | assignReturns => exact ⟨List.prefix_refl _, List.prefix_refl _⟩

end KeepAlive

end Siffleux

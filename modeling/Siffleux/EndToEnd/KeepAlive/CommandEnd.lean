import Siffleux.EndToEnd.Handshake

/-!
# One end of a command stream

After the handshake the client runs `handle_client_protocol_v1_command_stream` and the server
`handle_server_protocol_v1_command_stream`, which it comes to when `assign_tunnel` has returned.
Either end pings when its timer fires, and answers the other's pings.

The two loops read, answer and ping in the same way.  `CommandEnd` is what they share;
`endpoint_client_step` and `endpoint_server_step` say that either loop is one.

* `Hears` — an end follows what the other has written, and has answered all pings it has heard but
  the last one.
* `Hears.poll` — behind the handshake's frame a read may end anywhere: a poll takes the next frame,
  or finds the buffer empty.
-/

namespace Siffleux

open ByteBuf Framing Transition

open scoped List

/-! ## The loops -/

/-- The steps of an end: the transport delivers bytes, the task polls, its timer fires, it
answers. -/
inductive CommandLabel where
  | readData (chunk : Bytes)
  | poll
  | ping
  | pong
  deriving DecidableEq

def CommandLabel.forClient : CommandLabel → ClientConnection.Label
  | .readData chunk => .readData chunk
  | .poll => .poll
  | .ping => .ping none
  | .pong => .pong none

def CommandLabel.forServer : CommandLabel → ServerConnection.Label
  | .readData chunk => .readData chunk
  | .poll => .poll
  | .ping => .ping none
  | .pong => .pong none

/-- What the two command stream loops have in common; `isAnswering` is between hearing a ping and
writing the pong. -/
structure CommandEnd where
  lost : Option ConnectionError
  reads : List Bytes
  written : List FrameV1
  reader : FramedRead
  isAnswering : Bool

def ClientConnection.endpoint (c : ClientConnection) : Option CommandEnd :=
  match c.commands with
  | .commands r => some ⟨c.lost, c.reads, c.written, r, false⟩
  | .pong r => some ⟨c.lost, c.reads, c.written, r, true⟩
  | _ => none

/-- The server has the stream from the handshake on. -/
def ServerConnection.endpoint (c : ServerConnection) : Option CommandEnd :=
  match c.handler with
  | .assign _ _ r | .assigning _ _ r | .commands _ r => some ⟨c.lost, c.reads, c.written, r, false⟩
  | .pong _ r => some ⟨c.lost, c.reads, c.written, r, true⟩
  | _ => none

/-- How far the server is from its loop. -/
def ServerConnection.assignStage (c : ServerConnection) : ℕ :=
  match c.handler with
  | .assign .. => 2
  | .assigning .. => 1
  | _ => 0

namespace CommandEnd

/-- A step of either loop; `some none` when it is left. -/
def step (e : CommandEnd) : CommandLabel → Option (Option CommandEnd)
  | .readData chunk =>
      if e.isAnswering = false ∧ e.reader.wantsRead = true then
        some (some { e with reads := e.reads ++ [chunk], reader := e.reader.readData chunk })
      else none
  | .poll =>
      if e.isAnswering then none
      else match e.reader.poll codecV1.toStreamDecoder ClientConnection.bytesRemaining with
        | .ret (.pending, r') => some (some { e with reader := r' })
        | .ret (.item (.ok f), r') => some (some { e with reader := r', isAnswering := f == .ping })
        | _ => some none
  | .ping =>
      if e.isAnswering then none else some (some { e with written := e.written ++ [.ping] })
  | .pong =>
      if e.isAnswering then
        some (some { e with written := e.written ++ [.pong], isAnswering := false })
      else none

variable {e e' : CommandEnd} {sent : List FrameV1} {l : CommandLabel}

/-- The client's loop is an end. -/
theorem endpoint_client_step (authKey : AuthKey) (ingressId : IngressId) {c : ClientConnection}
    {result : Except Error Tunnel} (hauth : c.auth = .returned result)
    (h : c.endpoint = some e) (l : CommandLabel) :
    (c.step authKey ingressId l.forClient).map ClientConnection.endpoint = e.step l := by
  obtain ⟨lost, closeFrame, reads, written, auth, commands⟩ := c
  obtain rfl : auth = .returned result := hauth
  cases commands with
  | notSpawned | ended | panicked => cases h
  | pong r =>
      cases h
      cases l <;> rfl
  | commands r =>
      cases h
      cases l with
      | ping | pong => rfl
      | readData chunk =>
          cases hw : r.wantsRead <;>
            simp [step, CommandLabel.forClient, ClientConnection.step,
              ClientConnection.endpoint, hw]
      | poll =>
          simp only [step, CommandLabel.forClient, ClientConnection.step,
            ClientConnection.pollCommands, Option.map_some, Bool.false_eq_true, if_false]
          rcases r.poll codecV1.toStreamDecoder ClientConnection.bytesRemaining with
            ⟨⟨e | f⟩ | _ | _, r'⟩ | _
          · simp only [ClientConnection.onCommandError]
            split_ifs <;> simp [ClientConnection.endpoint, ClientConnection.hangUp]
          · cases f <;> rfl
          · rfl
          · rfl
          · rfl

/-- The server's loop is an end too, once `assign_tunnel` has returned. -/
theorem endpoint_server_step (serverId : ServerId) (registry : IngressId → Option Ingress)
    {c : ServerConnection} (h : c.endpoint = some e) (hn : c.assignStage = 0) (l : CommandLabel) :
    (c.step serverId registry l.forServer).map ServerConnection.endpoint = e.step l := by
  obtain ⟨lost, closeFrame, reads, written, handler, tunnel, assigned, assignResult⟩ := c
  cases handler with
  | pong tunnelId r =>
      cases h
      cases l <;> rfl
  | commands tunnelId r =>
      cases h
      cases l with
      | ping | pong => rfl
      | readData chunk =>
          cases hw : r.wantsRead <;>
            simp [step, CommandLabel.forServer, ServerConnection.step,
              ServerConnection.endpoint, hw]
      | poll =>
          simp only [step, CommandLabel.forServer, ServerConnection.step,
            ServerConnection.pollCommands, Option.map_some, Bool.false_eq_true, if_false]
          rw [show ServerConnection.bytesRemaining = ClientConnection.bytesRemaining from rfl]
          rcases r.poll codecV1.toStreamDecoder ClientConnection.bytesRemaining with
            ⟨⟨e | f⟩ | _ | _, r'⟩ | _
          · simp only [ServerConnection.onCommandError]
            split_ifs <;> rfl
          · cases f <;> rfl
          · rfl
          · rfl
          · rfl
  | assign | assigning => cases hn
  | _ => cases h

/-! ## What an end has heard -/

/-- The end has heard what it says of the frames `sent` to it, and has answered it. -/
def Hears (sent : List FrameV1) (e : CommandEnd) : Prop :=
  ∃ heard, Follows codecV1 sent heard e.reads.flatten e.reader ∧ heard ≠ [] ∧
    e.written.count .pong + e.isAnswering.toNat = heard.count .ping

/-- After the handshake's frame there are pings and pongs only. -/
def Chats (written : List FrameV1) : Prop := ∀ f ∈ written.tail, f.hasPayload = false

/-- What the transport may do when `sent` is under way and `reads` has arrived. -/
def carries (sent : List FrameV1) (reads : List Bytes) : CommandLabel → Bool
  | .readData chunk => !chunk.isEmpty && (reads.flatten ++ chunk).isPrefixOf (codecV1.encAll sent)
  | _ => true

lemma carries_readData_iff {reads : List Bytes} {chunk : Bytes} :
    carries sent reads (.readData chunk) = true ↔
      chunk ≠ [] ∧ reads.flatten ++ chunk <+: codecV1.encAll sent := by
  simp [carries]

lemma Hears.send (h : Hears sent e) (fs : List FrameV1) : Hears (sent ++ fs) e := by
  obtain ⟨heard, hf, hne, hcount⟩ := h
  exact ⟨heard, hf.send fs, hne, hcount⟩

/-- What has been read behind the handshake's frame can end anywhere. -/
lemma safeCut_of_chats (hc : Chats sent) {heard : List FrameV1} {got : Bytes} {r : FramedRead}
    (hf : Follows codecV1 sent heard got r) (hne : heard ≠ []) :
    codecV1.SafeCut sent got.length := by
  obtain ⟨f, heard, rfl⟩ := List.exists_cons_of_ne_nil hne
  obtain ⟨later, rfl⟩ := hf.heard_prefix
  have hlen : got.length = (codecV1.encAll [f]).length +
      ((codecV1.encAll heard).length + r.buffer.length) := by
    rw [hf.buffered]
    simp only [FrameFormat.encAll_cons, FrameFormat.encAll_nil, List.length_append, List.length_nil]
    omega
  rw [hlen]
  show codecV1.SafeCut ([f] ++ (heard ++ later)) _
  rw [FrameFormat.safeCut_append]
  refine FrameFormat.safeCut_of_not_stall codecV1 (fun g hg j hstall => ?_) _
  have hpayload := hc g hg
  rw [hstall.1] at hpayload
  cases hpayload

/-- **Behind the handshake a poll delivers the next ping or pong, or finds the buffer empty.** -/
theorem Hears.poll (h : Hears sent e) (hc : Chats sent) (ha : e.isAnswering = false) :
    (∃ r', e.step .poll = some (some { e with reader := r' }) ∧
      Hears sent { e with reader := r' } ∧ r'.isReadable = false ∧
        r'.buffer = e.reader.buffer) ∨
    ∃ (f : FrameV1) (r' : FramedRead),
      e.step .poll = some (some { e with reader := r', isAnswering := f == .ping }) ∧
      Hears sent { e with reader := r', isAnswering := f == .ping } ∧
        r'.isReadable = e.reader.isReadable ∧ r'.buffer.length + 1 = e.reader.buffer.length := by
  obtain ⟨heard, hf, hne, hcount⟩ := h
  rw [ha, Bool.toNat_false, Nat.add_zero] at hcount
  rcases hf.poll (safeCut_of_chats hc hf hne) ClientConnection.bytesRemaining with
    ⟨r', hp, hf', hr, hb, -⟩ | ⟨f, r', hp, hf', hr⟩
  · refine Or.inl ⟨r', ?_, ⟨heard, hf', hne, ?_⟩, hr, hb⟩
    · simp only [step, ha, Bool.false_eq_true, if_false, hp]
    · rw [ha]
      exact hcount
  · refine Or.inr ⟨f, r', ?_, ⟨heard ++ [f], hf', by simp, ?_⟩, hr, ?_⟩
    · simp only [step, ha, Bool.false_eq_true, if_false, hp]
    · rw [List.count_append, ← hcount, List.count_singleton]
      cases f <;> rfl
    · have hmem : f ∈ sent.tail := by
        obtain ⟨g, heard, rfl⟩ := List.exists_cons_of_ne_nil hne
        obtain ⟨later, rfl⟩ := hf'.heard_prefix
        simp
      obtain ⟨ty, hty⟩ := frameBytes_of_not_hasPayload (hc f hmem)
      have hlen := congrArg List.length (hf'.buffered.symm.trans hf.buffered)
      rw [FrameFormat.encAll_append, FrameFormat.encAll_cons, FrameFormat.encAll_nil,
        List.append_nil, show codecV1.enc f = [ty] from hty] at hlen
      simp only [List.length_append, List.length_cons, List.length_nil] at hlen
      omega

/-- An end that has nothing to read has heard all it has got. -/
lemma Hears.buffer_eq_nil (h : Hears sent e) (hc : Chats sent) (hr : e.reader.isReadable = false) :
    e.reader.buffer = [] := by
  obtain ⟨heard, hf, hne, -⟩ := h
  obtain ⟨f, heard, rfl⟩ := List.exists_cons_of_ne_nil hne
  obtain ⟨later, rfl⟩ := hf.heard_prefix
  have hpre := hf.got_prefix
  rw [hf.buffered, FrameFormat.encAll_append, List.prefix_append_right_inj] at hpre
  cases later with
  | nil => exact List.prefix_nil.mp hpre
  | cons g later =>
      obtain ⟨ty, hty⟩ := frameBytes_of_not_hasPayload (hc g (by simp))
      rw [FrameFormat.encAll_cons, show codecV1.enc g = [ty] from hty,
        List.singleton_append] at hpre
      rcases List.prefix_cons_iff.mp hpre with hnil | ⟨b, hb, -⟩
      · exact hnil
      · have hdecode := codecV1.decode_enc g b
        rw [show codecV1.enc g = [ty] from hty, List.singleton_append, ← hb,
          hf.settled hr] at hdecode
        cases hdecode

/-- What an end has not heard yet it has not taken from the buffer. -/
lemma Hears.taken_lt {first later : List FrameV1} (h : Hears (first ++ later) e)
    (ha : e.isAnswering = false) (hn : e.written.count .pong < first.count .ping) :
    e.reads.flatten.length < (codecV1.encAll first).length + e.reader.buffer.length := by
  obtain ⟨heard, hf, -, hcount⟩ := h
  rw [ha, Bool.toNat_false, Nat.add_zero] at hcount
  have hlen := congrArg List.length hf.buffered
  rw [List.length_append] at hlen
  by_contra! hle
  have hpre : codecV1.encAll first <+: codecV1.encAll heard := by
    obtain ⟨rest, hrest⟩ := hf.heard_prefix
    have hfirst : codecV1.encAll first <+: codecV1.encAll (first ++ later) :=
      ⟨codecV1.encAll later, (codecV1.encAll_append first later).symm⟩
    have hheard : codecV1.encAll heard <+: codecV1.encAll (first ++ later) :=
      ⟨codecV1.encAll rest, by rw [← codecV1.encAll_append, hrest]⟩
    exact List.prefix_of_prefix_length_le hfirst hheard (by omega)
  have hprefix : first <+: heard := by
    rcases List.prefix_or_prefix_of_prefix (List.prefix_append first later) hf.heard_prefix with
      hfirst | ⟨rest, hrest⟩
    · exact hfirst
    · cases rest with
      | nil => exact ⟨[], by rw [List.append_nil, ← hrest, List.append_nil]⟩
      | cons f rest =>
          have hshort := hpre.length_le
          have hpos := codecV1.enc_pos f
          rw [← hrest, FrameFormat.encAll_append, FrameFormat.encAll_cons, List.length_append,
            List.length_append] at hshort
          omega
  have hle := hprefix.sublist.count_le FrameV1.ping
  omega

/-- What an end writes in its loop is a ping or a pong. -/
lemma written_of_step (h : e.step l = some (some e')) :
    e'.lost = e.lost ∧ ∃ fs, e'.written = e.written ++ fs ∧ ∀ f ∈ fs, f.hasPayload = false := by
  cases l with
  | readData =>
      simp only [step] at h
      split_ifs at h
      cases h
      exact ⟨rfl, [], (List.append_nil _).symm, by simp⟩
  | ping | pong =>
      simp only [step] at h
      split_ifs at h
      cases h
      exact ⟨rfl, _, rfl, by simp [FrameV1.hasPayload]⟩
  | poll =>
      simp only [step] at h
      split_ifs at h
      split at h <;> cases h <;> exact ⟨rfl, [], (List.append_nil _).symm, by simp⟩

/-- An end that hears never leaves its loop. -/
lemma Hears.stays (h : Hears sent e) (hc : Chats sent) {o : Option CommandEnd}
    (hs : e.step l = some o) : o.isSome = true := by
  cases l with
  | readData | ping | pong =>
      simp only [step] at hs
      split_ifs at hs
      cases hs
      rfl
  | poll =>
      cases ha : e.isAnswering with
      | true => simp [step, ha] at hs
      | false =>
          rcases h.poll hc ha with ⟨r', hp, -⟩ | ⟨f, r', hp, -⟩ <;>
          · rw [hp] at hs
            cases hs
            rfl

lemma Hears.isReadable_of_wantsRead (h : Hears sent e) :
    e.reader.wantsRead = !e.reader.isReadable := by
  obtain ⟨heard, hf, -⟩ := h
  rw [FramedRead.wantsRead, hf.silent, Bool.not_false, Bool.and_true]

lemma Hears.sent_ne_nil (h : Hears sent e) : sent ≠ [] := by
  obtain ⟨heard, hf, hne, -⟩ := h
  rintro rfl
  exact hne (List.prefix_nil.mp hf.heard_prefix)

/-- No end answers more than it was asked. -/
lemma Hears.pongs_le_pings (h : Hears sent e) :
    e.written.count .pong ≤ sent.count .ping := by
  obtain ⟨heard, hf, -, hcount⟩ := h
  have hle := hf.heard_prefix.sublist.count_le FrameV1.ping
  omega

lemma Chats.append {written fs : List FrameV1} (h : Chats written) (hne : written ≠ [])
    (hfs : ∀ f ∈ fs, f.hasPayload = false) : Chats (written ++ fs) := by
  intro f hf
  rw [List.tail_append_of_ne_nil hne, List.mem_append] at hf
  exact hf.elim (h f) (hfs f)

end CommandEnd

end Siffleux

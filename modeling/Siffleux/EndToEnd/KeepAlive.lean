import Siffleux.EndToEnd.KeepAlive.Serving
import Siffleux.Foundation.Progress

/-!
# Pings and pongs

What the two ends of a command stream come to, from the handshake on and in every run of their two
tasks.

* `serverVariant`, `clientVariant` — what is left until either end has answered all that was written
  to it up to some moment.
* `KeptAlive` — how the two are at any time: neither end has left its loop, each pong answers a
  ping, and each ping comes to be answered.
* `KeepAlive.keeps_alive` — it is how they are after any run.
-/

namespace Siffleux

open ByteBuf Framing Transition

open scoped List

namespace KeepAlive

variable {p : Parties} {t : Tunnel} {s s' s₀ : Handshake} {c sv : CommandEnd} {l : Label}

/-! ## Every ping is answered -/

/-- The steps that bring the answers to `first` nearer, until they are all written. -/
def serverHelps (first : List FrameV1) (s : Handshake) (l : Label) : Bool :=
  s.server.endpoint.any fun sv => !decide (sv.HasAnswered first) &&
    match l with
    | .server l => sv.helps l
    | .callAssign | .assignReturns _ => true
    | .client _ => false

def clientHelps (first : List FrameV1) (s : Handshake) (l : Label) : Bool :=
  s.client.endpoint.any fun c => !decide (c.HasAnswered first) &&
    match l with
    | .client l => c.helps l
    | _ => false

def serverVariant (first : List FrameV1) (s : Handshake) : ℕ :=
  match s.server.endpoint with
  | some sv => sv.backlog first + if sv.HasAnswered first then 0 else s.server.assignStage
  | none => 0

def clientVariant (first : List FrameV1) (s : Handshake) : ℕ :=
  match s.client.endpoint with
  | some c => c.backlog first
  | none => 0

lemma assignStage_le (sc : ServerConnection) : sc.assignStage ≤ 2 := by
  rw [ServerConnection.assignStage]
  split <;> omega

lemma Serving.serverVariant_step {first : List FrameV1} (h : Serving s c sv)
    (hfirst : first <+: c.written) (hs : KeepAlive.step p s l = some s') :
    serverVariant first s' + (serverHelps first s l).toNat ≤ serverVariant first s := by
  obtain ⟨c', sv', h', hm⟩ := h.step hs
  simp only [serverVariant, serverHelps, h.server, h'.server, Option.any_some]
  cases hm with
  | client _ _ hsame =>
      rw [hsame, Bool.and_false]
      exact Nat.le_refl _
  | server hstep hl hstage =>
      have hle := h.toServer.backlog_step h.clientChats hfirst hl hstep
      rw [hstage.1, hstage.2, ite_self, ite_self]
      exact hle
  | callAssign hstage | assignReturns hstage =>
      rw [hstage.1, hstage.2, Bool.and_true]
      by_cases hd : sv.HasAnswered first
      · simp [hd]
      · simp only [hd, decide_false, Bool.not_false, Bool.toNat_true, if_false]
        omega

lemma Serving.clientVariant_step {first : List FrameV1} (h : Serving s c sv)
    (hfirst : first <+: sv.written) (hs : KeepAlive.step p s l = some s') :
    clientVariant first s' + (clientHelps first s l).toNat ≤ clientVariant first s := by
  obtain ⟨c', sv', h', hm⟩ := h.step hs
  simp only [clientVariant, clientHelps, h.client, h'.client, Option.any_some]
  cases hm with
  | client hstep hl => exact h.toClient.backlog_step h.serverChats hfirst hl hstep
  | server | callAssign | assignReturns =>
      rw [Bool.and_false]
      exact Nat.le_refl _

/-- As long as the server owes an answer it has something to do. -/
lemma Serving.server_progress {first : List FrameV1} (h : Serving s c sv)
    (hfirst : first <+: c.written) (hn : ¬ sv.HasAnswered first) :
    ∃ l, serverHelps first s l = true ∧ (KeepAlive.step p s l).isSome = true := by
  obtain ⟨later, hlater⟩ := hfirst
  obtain ⟨-, -, hcwritten⟩ := client_eq_of_endpoint h.client
  obtain ⟨-, hsreads, -⟩ := server_eq_of_endpoint h.server
  by_cases hstage : s.server.assignStage = 0
  · have hhears := h.toServer
    have hchats := h.clientChats
    rw [← hlater] at hhears hchats
    obtain ⟨l, hhelps, hl, hen⟩ := hhears.progress hchats hn
    rw [hlater, hcwritten, hsreads] at hl
    refine ⟨.server l, ?_, ?_⟩
    · rw [serverHelps, h.server, Option.any_some, decide_eq_false hn]
      exact hhelps
    · rw [← CommandEnd.endpoint_server_step p.serverId p.registry.get h.server hstage l,
        Option.isSome_map] at hen
      rw [KeepAlive.step, if_pos hl, serverStep, Option.isSome_map]
      exact hen
  · have hhelps : ∀ l, (∀ cl, l ≠ Label.client cl) → (∀ sl, l ≠ Label.server sl) →
        serverHelps first s l = true := by
      intro l hc hs
      rw [serverHelps, h.server, Option.any_some, decide_eq_false hn]
      cases l with
      | client l => exact absurd rfl (hc l)
      | server l => exact absurd rfl (hs l)
      | callAssign | assignReturns => rfl
    cases hh : s.server.handler with
    | assign ingress tunnelId r =>
        refine ⟨.callAssign, hhelps _ (by simp) (by simp), ?_⟩
        simp [KeepAlive.step, serverStep, ServerConnection.step, hh]
    | assigning ingress tunnelId r =>
        refine ⟨.assignReturns (.ok ()), hhelps _ (by simp) (by simp), ?_⟩
        simp [KeepAlive.step, serverStep, ServerConnection.step, hh]
    | _ => simp [ServerConnection.assignStage, hh] at hstage

lemma Serving.client_progress {first : List FrameV1} (h : Serving s c sv)
    (hfirst : first <+: sv.written) (hn : ¬ c.HasAnswered first) :
    ∃ l, clientHelps first s l = true ∧ (KeepAlive.step p s l).isSome = true := by
  obtain ⟨later, hlater⟩ := hfirst
  obtain ⟨result, hauth⟩ := h.returned
  obtain ⟨-, hcreads, -⟩ := client_eq_of_endpoint h.client
  obtain ⟨-, -, hswritten⟩ := server_eq_of_endpoint h.server
  have hhears := h.toClient
  have hchats := h.serverChats
  rw [← hlater] at hhears hchats
  obtain ⟨l, hhelps, hl, hen⟩ := hhears.progress hchats hn
  rw [hlater, hswritten, hcreads] at hl
  refine ⟨.client l, ?_, ?_⟩
  · rw [clientHelps, h.client, Option.any_some, decide_eq_false hn]
    exact hhelps
  · rw [← CommandEnd.endpoint_client_step p.authKey p.ingressId hauth h.client l,
      Option.isSome_map] at hen
    rw [KeepAlive.step, if_pos hl, clientStep, Option.isSome_map]
    exact hen

/-! ## Whole runs -/

/-- An end that has heard the handshake's frame and written its own. -/
lemma hears_first {f g : FrameV1} (hf : f ≠ .ping) (hg : g ≠ .pong) :
    CommandEnd.Hears [f] ⟨none, [frameBytes f], [g], .readData .new [], false⟩ := by
  have hbytes : codecV1.encAll [f] = frameBytes f := List.append_nil _
  refine ⟨[f], ⟨?_, List.prefix_refl _, ?_, rfl, rfl, fun hr => Bool.noConfusion hr⟩, by simp, ?_⟩
  · rw [hbytes]
    simp
  · rw [hbytes]
    simp [FramedRead.readData, FramedRead.new]
  · simp [hf, hg]

/-- What the handshake leaves behind. -/
def accepted (p : Parties) (ingress : Ingress) (tunnelId : Uuid) : Handshake where
  client := ⟨none, none, [frameBytes (Handshake.answer ⟨tunnelId, p.serverId⟩)],
    [Handshake.request p], .returned (.ok ⟨tunnelId, p.serverId⟩), .commands (.readData .new [])⟩
  server := ⟨none, none, [frameBytes (Handshake.request p)],
    [Handshake.answer ⟨tunnelId, p.serverId⟩], .assign ingress tunnelId (.readData .new []),
    some tunnelId, [], none⟩

lemma eq_accepted_of_joined (h : Handshake.Joined p s₀) (hok : s₀.clientResult = some (.ok t)) :
    ∃ ingress, s₀ = accepted p ingress t.id := by
  obtain ⟨cc, sc⟩ := s₀
  obtain ⟨hc, hv⟩ := h
  cases hc with
  | accepted t' hw =>
      cases hok
      cases hv with
      | accepted ingress tunnelId hverdict =>
          simp only [Handshake.answer, List.cons.injEq, FrameV1.authenticated.injEq, and_true] at hw
          obtain ⟨hid, hserver⟩ := hw
          obtain ⟨id, serverId⟩ := t
          subst hid hserver
          exact ⟨ingress, rfl⟩
      | _ => cases hw
  | _ => cases hok

lemma serving_accepted (p : Parties) (ingress : Ingress) (tunnelId : Uuid) :
    ∃ c sv, Serving (accepted p ingress tunnelId) c sv := by
  refine ⟨_, _, rfl, ⟨_, rfl⟩, rfl, hears_first nofun nofun, hears_first nofun nofun, ?_, ?_,
    rfl, rfl⟩
  · exact fun f hf => by cases hf
  · exact fun f hf => by cases hf

lemma serving_run (h₀ : Serving s₀ c sv) {ls : List Label} (h : (system p s₀).Run ls s) :
    ∃ c sv, Serving s c sv := by
  induction h with
  | nil => exact ⟨c, sv, h₀⟩
  | snoc _ hs ih =>
      obtain ⟨c, sv, h⟩ := ih
      obtain ⟨c', sv', h', -⟩ := h.step hs
      exact ⟨c', sv', h'⟩

/-- How the two are after any run. -/
structure KeptAlive (p : Parties) (s₀ s : Handshake) : Prop where
  serving : s.client.endpoint.isSome = true ∧ s.server.endpoint.isSome = true
  unlost : s.client.lost = none ∧ s.server.lost = none
  client_pongs : s.client.written.count .pong ≤ s.server.written.count .ping
  server_pongs : s.server.written.count .pong ≤ s.client.written.count .ping
  /-- Whatever else is done, the server comes to answer what the client has written so far. -/
  server_answers : (system p s₀).Ensures (serverHelps s.client.written) (fun _ _ => True)
    (fun s' => s.client.written.count .ping ≤ s'.server.written.count .pong)
    (5 * (codecV1.encAll s.client.written).length + 4) s
  client_answers : (system p s₀).Ensures (clientHelps s.server.written) (fun _ _ => True)
    (fun s' => s.server.written.count .ping ≤ s'.client.written.count .pong)
    (5 * (codecV1.encAll s.server.written).length + 2) s

theorem Serving.keptAlive (h : Serving s c sv) (s₀ : Handshake) : KeptAlive p s₀ s where
  serving := by
    rw [h.client, h.server]
    exact ⟨rfl, rfl⟩
  unlost := by
    rw [← (client_eq_of_endpoint h.client).1, ← (server_eq_of_endpoint h.server).1]
    exact h.unlost
  client_pongs := by
    rw [← (client_eq_of_endpoint h.client).2.2, ← (server_eq_of_endpoint h.server).2.2]
    exact h.toClient.pongs_le_pings
  server_pongs := by
    rw [← (client_eq_of_endpoint h.client).2.2, ← (server_eq_of_endpoint h.server).2.2]
    exact h.toServer.pongs_le_pings
  server_answers := by
    rw [← (client_eq_of_endpoint h.client).2.2]
    refine System.ensures_of_variant
      (fun s' => ∃ c' sv', Serving s' c' sv' ∧ c.written <+: c'.written)
      (serverVariant c.written) ?_ ?_ ⟨c, sv, h, List.prefix_refl _⟩ ?_
    · rintro s l s' ⟨c₁, sv₁, h₁, hfirst⟩ - hs
      obtain ⟨c', sv', h', hm⟩ := h₁.step hs
      exact ⟨⟨c', sv', h', hfirst.trans hm.written.1⟩, h₁.serverVariant_step hfirst hs⟩
    · rintro s ⟨c₁, sv₁, h₁, hfirst⟩ hn
      rw [← (server_eq_of_endpoint h₁.server).2.2] at hn
      obtain ⟨l, hl, hen⟩ := h₁.server_progress (p := p) hfirst hn
      exact ⟨l, hl, trivial, hen⟩
    · have hbacklog := h.toServer.backlog_le c.written
      have hstage := assignStage_le s.server
      simp only [serverVariant, h.server]
      split_ifs <;> omega
  client_answers := by
    rw [← (server_eq_of_endpoint h.server).2.2]
    refine System.ensures_of_variant
      (fun s' => ∃ c' sv', Serving s' c' sv' ∧ sv.written <+: sv'.written)
      (clientVariant sv.written) ?_ ?_ ⟨c, sv, h, List.prefix_refl _⟩ ?_
    · rintro s l s' ⟨c₁, sv₁, h₁, hfirst⟩ - hs
      obtain ⟨c', sv', h', hm⟩ := h₁.step hs
      exact ⟨⟨c', sv', h', hfirst.trans hm.written.2⟩, h₁.clientVariant_step hfirst hs⟩
    · rintro s ⟨c₁, sv₁, h₁, hfirst⟩ hn
      rw [← (client_eq_of_endpoint h₁.client).2.2] at hn
      obtain ⟨l, hl, hen⟩ := h₁.client_progress (p := p) hfirst hn
      exact ⟨l, hl, trivial, hen⟩
    · simp only [clientVariant, h.client]
      exact h.toClient.backlog_le sv.written

/-- **The command stream keeps the tunnel alive**, from the handshake on and in every run: neither
end leaves its loop or closes the connection, no end answers more than it was asked, and every ping
is answered. -/
theorem keeps_alive {hs : List Handshake.Label} (h₀ : (Handshake.system p).Run hs s₀)
    (hok : s₀.clientResult = some (.ok t)) {ls : List Label} (h : (system p s₀).Run ls s) :
    KeptAlive p s₀ s := by
  obtain ⟨ingress, rfl⟩ := eq_accepted_of_joined (Handshake.joined_run h₀) hok
  obtain ⟨c, sv, hserving⟩ := serving_accepted p ingress t.id
  obtain ⟨c', sv', h'⟩ := serving_run hserving h
  exact h'.keptAlive _

/-- The client pings twice before the server is in its loop, which hears both at once and has
answered one. -/
theorem keeps_alive_two_pings : ∃ ls s₀ s,
    (system (Handshake.oneIngress ⟨"k", by decide, by decide⟩) s₀).Run ls s ∧
      s.client.written.count .ping = 2 ∧ s.server.written.count .pong = 1 ∧
      KeptAlive (Handshake.oneIngress ⟨"k", by decide, by decide⟩) s₀ s := by
  have hexec : (((Handshake.system (Handshake.oneIngress ⟨"k", by decide, by decide⟩)).exec .new
      [.openBi, .sendAuth, .acceptBi, .toServer, .serverPolls, .lookup,
        .checkKey ⟨Vector.replicate 16 7⟩, .clientPolls, .reply, .toClient, .clientPolls]).bind
      fun s₀ => ((system (Handshake.oneIngress ⟨"k", by decide, by decide⟩) s₀).exec s₀
        [.client .ping, .callAssign, .client .poll, .client .ping, .assignReturns (.ok ()),
          .server .poll, .server (.readData [pingType, pingType]), .server .poll, .server .pong,
          .server .poll]).map fun s => (s₀.clientResult.bind Except.toOption,
            s.client.written.count .ping, s.server.written.count .pong)) =
      some (some ⟨⟨Vector.replicate 16 7⟩, ⟨"siffleux", by decide, by decide⟩⟩, 2, 1) := by
    decide +kernel
  obtain ⟨s₀, hs₀, hmap⟩ := Option.bind_eq_some_iff.mp hexec
  obtain ⟨s, hs, heq⟩ := Option.map_eq_some_iff.mp hmap
  obtain ⟨hres, hpings, hpongs⟩ : _ ∧ _ ∧ _ := by simpa only [Prod.mk.injEq] using heq
  obtain ⟨_ | t, hok, ht⟩ := Option.bind_eq_some_iff.mp hres
  · cases ht
  have h := System.run_of_exec hs
  exact ⟨_, s₀, s, h, hpings, hpongs, keeps_alive (System.run_of_exec hs₀) hok h⟩

end KeepAlive

end Siffleux

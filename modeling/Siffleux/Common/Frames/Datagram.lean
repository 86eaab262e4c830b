import Siffleux.Common.Frames.V1

/-!
# Tunnel datagrams

`common/frames/v1.rs`, `to_datagram` and `extract_origin_socket_addr_from_datagram`: a UDP payload
travels behind one tag octet, the octets of the origin's address and its port.

* `OriginHeaderWhole b` — the tag is there, and the address and port it announces too.
* `extractOriginSocketAddrFromDatagram_eq_panic_iff` — the extractor panics exactly on the other
  datagrams.  An unknown tag is not one of them: that is the `None` of its result.
* `extract_eq_ret_some_iff` — it answers an address exactly on the header of that address.
* `toDatagram_bijective` — so the two functions are each other's inverse.
-/

namespace Siffleux

open ByteBuf

def udpIpv4Origin : UInt8 := 0
def udpIpv6Origin : UInt8 := 1

structure Ipv4Addr where
  octets : Vector UInt8 4
  deriving DecidableEq, Repr

def Ipv4Addr.localhost : Ipv4Addr := ⟨#v[127, 0, 0, 1]⟩

structure Ipv6Addr where
  octets : Vector UInt8 16
  deriving DecidableEq, Repr

/-- `std::net::SocketAddr`. -/
inductive SocketAddr where
  | v4 (ip : Ipv4Addr) (port : UInt16)
  | v6 (ip : Ipv6Addr) (port : UInt16) (flowinfo scopeId : UInt32)
  deriving DecidableEq, Repr

/-- `to_datagram`; the slice `&data[..data_size]` is what can panic. -/
def toDatagram (socketAddr : SocketAddr) (data : Bytes) (dataSize : ℕ) : Outcome Bytes :=
  let bytes := match socketAddr with
    | .v4 ip port => putU16 (putSlice (putU8 [] udpIpv4Origin) ip.octets.toList) port
    | .v6 ip port _ _ => putU16 (putSlice (putU8 [] udpIpv6Origin) ip.octets.toList) port
  (sliceTo dataSize data).map (putSlice bytes)

/-- An address of `n` octets and a port. -/
def getAddrPort (n : ℕ) (mk : Vector UInt8 n → UInt16 → SocketAddr) :
    Reader (Option SocketAddr) := do
  let octets ← copyToSlice n
  let port ← getU16
  return some (mk octets port)

/-- `extract_origin_socket_addr_from_datagram`. -/
def extractOriginSocketAddrFromDatagram : Reader (Option SocketAddr) := do
  let tag ← getU8
  if tag = udpIpv4Origin then getAddrPort 4 fun octets port => .v4 ⟨octets⟩ port
  else if tag = udpIpv6Origin then getAddrPort 16 fun octets port => .v6 ⟨octets⟩ port 0 0
  else return none

/-! ## Where the extractor panics -/

/-- The datagram has its tag, and behind a known tag the address and port. -/
def OriginHeaderWhole : Bytes → Prop
  | [] => False
  | tag :: body =>
      (tag = udpIpv4Origin → 4 + 2 ≤ body.length) ∧ (tag = udpIpv6Origin → 16 + 2 ≤ body.length)

instance : DecidablePred OriginHeaderWhole
  | [] => inferInstanceAs (Decidable False)
  | tag :: body => inferInstanceAs (Decidable
      ((tag = udpIpv4Origin → 4 + 2 ≤ body.length) ∧ (tag = udpIpv6Origin → 16 + 2 ≤ body.length)))

lemma getU16_eq_panic_iff {b : Bytes} : getU16 b = .panic ↔ b.length < 2 := by
  match b with
  | [] => simp [getU16]
  | [_] => simp [getU16]
  | _ :: _ :: b =>
      simp only [getU16_cons, List.length_cons, reduceCtorEq, false_iff]
      omega

lemma getAddrPort_eq_panic_iff {n : ℕ} {mk : Vector UInt8 n → UInt16 → SocketAddr} {b : Bytes} :
    getAddrPort n mk b = .panic ↔ b.length < n + 2 := by
  simp only [getAddrPort, Reader.bind_apply]
  rcases ho : copyToSlice n b with ⟨v, t⟩ | _
  · have hlen := congrArg List.length (copyToSlice_eq_ret_iff.mp ho)
    rw [List.length_append, Vector.length_toList] at hlen
    simp only [Outcome.bind_ret]
    rcases hp : getU16 t with ⟨p, t'⟩ | _
    · have hge : ¬ t.length < 2 := fun h => by rw [getU16_eq_panic_iff.mpr h] at hp; cases hp
      simp only [Outcome.bind_ret, Reader.pure_apply, reduceCtorEq, false_iff]
      omega
    · have hlt := getU16_eq_panic_iff.mp hp
      simp only [Outcome.bind_panic, true_iff]
      omega
  · have hlt := copyToSlice_eq_panic_iff.mp ho
    simp only [Outcome.bind_panic, true_iff]
    omega

/-- **The extractor panics exactly on datagrams cut short of their origin.** -/
theorem extractOriginSocketAddrFromDatagram_eq_panic_iff (b : Bytes) :
    extractOriginSocketAddrFromDatagram b = .panic ↔ ¬ OriginHeaderWhole b := by
  cases b with
  | nil => exact iff_of_true rfl id
  | cons tag body =>
      have hne : udpIpv6Origin ≠ udpIpv4Origin := by decide
      simp only [extractOriginSocketAddrFromDatagram, Reader.bind_apply, getU8_cons,
        Outcome.bind_ret, Reader.ite_apply, OriginHeaderWhole]
      split_ifs with h4 h6
      · subst h4
        rw [getAddrPort_eq_panic_iff]
        simp [hne.symm]
      · subst h6
        rw [getAddrPort_eq_panic_iff]
        simp [hne]
      · simp [h4, h6]

/-- Otherwise it answers, with an address or with `None`. -/
lemma OriginHeaderWhole.extract {b : Bytes} (h : OriginHeaderWhole b) :
    ∃ r, extractOriginSocketAddrFromDatagram b = .ret r := by
  rcases he : extractOriginSocketAddrFromDatagram b with r | _
  · exact ⟨r, rfl⟩
  · exact absurd h ((extractOriginSocketAddrFromDatagram_eq_panic_iff b).mp he)

lemma OriginHeaderWhole.of_extract {b : Bytes} {r : Option SocketAddr × Bytes}
    (h : extractOriginSocketAddrFromDatagram b = .ret r) : OriginHeaderWhole b := by
  by_contra hn
  rw [(extractOriginSocketAddrFromDatagram_eq_panic_iff b).mpr hn] at h
  cases h

/-! ## The two directions -/

/-- What the wire has room for: an IPv6 address without flow information and scope. -/
def SocketAddr.IsOrigin : SocketAddr → Prop
  | .v4 _ _ => True
  | .v6 _ _ flowinfo scopeId => flowinfo = 0 ∧ scopeId = 0

instance : DecidablePred SocketAddr.IsOrigin
  | .v4 _ _ => inferInstanceAs (Decidable True)
  | .v6 _ _ flowinfo scopeId => inferInstanceAs (Decidable (flowinfo = 0 ∧ scopeId = 0))

/-- The octets `to_datagram` puts in front of the payload. -/
def originHeader : SocketAddr → Bytes
  | .v4 ip port => putU16 (putSlice (putU8 [] udpIpv4Origin) ip.octets.toList) port
  | .v6 ip port _ _ => putU16 (putSlice (putU8 [] udpIpv6Origin) ip.octets.toList) port

lemma toDatagram_eq_map (a : SocketAddr) (data : Bytes) (n : ℕ) :
    toDatagram a data n = (sliceTo n data).map (originHeader a ++ ·) := by
  cases a <;> rfl

lemma toDatagram_eq_ret_iff {a : SocketAddr} {data : Bytes} {n : ℕ} {w : Bytes} :
    toDatagram a data n = .ret w ↔ n ≤ data.length ∧ w = originHeader a ++ data.take n := by
  rw [toDatagram_eq_map, Outcome.map_eq_ret_iff]
  constructor
  · rintro ⟨p, hp, rfl⟩
    rw [sliceTo] at hp
    split_ifs at hp with hn
    simp only [Outcome.ret.injEq] at hp
    exact ⟨hn, by rw [hp]⟩
  · rintro ⟨hn, rfl⟩
    exact ⟨data.take n, by rw [sliceTo, if_pos hn], rfl⟩

lemma getU16_eq_ret_iff {b t : Bytes} {n : UInt16} :
    getU16 b = .ret (n, t) ↔ b = putU16 [] n ++ t := by
  constructor
  · intro h
    match b with
    | [] => cases h
    | [_] => cases h
    | hi :: lo :: b =>
        simp only [getU16_cons, Outcome.ret.injEq, Prod.mk.injEq] at h
        obtain ⟨rfl, rfl⟩ := h
        have hs := split_fromBeBytes hi lo
        rw [putU16, List.nil_append, hs]
        rfl
  · rintro rfl
    simp only [putU16, List.nil_append, List.cons_append, getU16_cons, fromBeBytes_split]

lemma getAddrPort_eq_ret_iff {n : ℕ} {mk : Vector UInt8 n → UInt16 → SocketAddr} {b t : Bytes}
    {a : SocketAddr} :
    getAddrPort n mk b = .ret (some a, t) ↔
      ∃ octets port, a = mk octets port ∧ b = octets.toList ++ (putU16 [] port ++ t) := by
  simp only [getAddrPort, Reader.bind_apply]
  constructor
  · intro h
    rcases ho : copyToSlice n b with ⟨octets, u⟩ | _
    · rw [ho, Outcome.bind_ret] at h
      rcases hp : getU16 u with ⟨port, u'⟩ | _
      · simp only [hp, Outcome.bind_ret, Reader.pure_apply, Outcome.ret.injEq, Prod.mk.injEq,
          Option.some.injEq] at h
        obtain ⟨rfl, rfl⟩ := h
        rw [getU16_eq_ret_iff] at hp
        rw [copyToSlice_eq_ret_iff, hp] at ho
        exact ⟨octets, port, rfl, ho⟩
      · rw [hp] at h
        cases h
    · rw [ho] at h
      cases h
  · rintro ⟨octets, port, rfl, rfl⟩
    have hp : getU16 (putU16 [] port ++ t) = .ret (port, t) := getU16_eq_ret_iff.mpr rfl
    rw [copyToSlice_append, Outcome.bind_ret, hp]
    rfl

/-- **The extractor answers an address exactly on the header `to_datagram` writes for it.** -/
theorem extract_eq_ret_some_iff {w p : Bytes} {a : SocketAddr} :
    extractOriginSocketAddrFromDatagram w = .ret (some a, p) ↔
      a.IsOrigin ∧ w = originHeader a ++ p := by
  have hne : udpIpv6Origin ≠ udpIpv4Origin := by decide
  cases w with
  | nil =>
      cases a <;> simp [extractOriginSocketAddrFromDatagram, originHeader, putU16, putSlice, putU8]
  | cons tag body =>
      simp only [extractOriginSocketAddrFromDatagram, Reader.bind_apply, getU8_cons,
        Outcome.bind_ret, Reader.ite_apply]
      split_ifs with h4 h6
      · subst h4
        rw [getAddrPort_eq_ret_iff]
        constructor
        · rintro ⟨octets, port, rfl, rfl⟩
          exact ⟨trivial, by simp [originHeader, putU16, putSlice, putU8]⟩
        · rintro ⟨ha, hw⟩
          cases a with
          | v4 ip port =>
              refine ⟨ip.octets, port, rfl, ?_⟩
              simpa [originHeader, putU16, putSlice, putU8] using hw
          | v6 ip port f s => simp [originHeader, putU16, putSlice, putU8, hne.symm] at hw
      · subst h6
        rw [getAddrPort_eq_ret_iff]
        constructor
        · rintro ⟨octets, port, rfl, rfl⟩
          exact ⟨⟨rfl, rfl⟩, by simp [originHeader, putU16, putSlice, putU8]⟩
        · rintro ⟨ha, hw⟩
          cases a with
          | v4 ip port => simp [originHeader, putU16, putSlice, putU8, hne] at hw
          | v6 ip port f s =>
              obtain ⟨rfl, rfl⟩ := ha
              refine ⟨ip.octets, port, rfl, ?_⟩
              simpa [originHeader, putU16, putSlice, putU8] using hw
      · constructor
        · intro h
          simp at h
        · rintro ⟨-, hw⟩
          cases a <;> simp_all [originHeader, putU16, putSlice, putU8]

/-- A header is told from what follows it, so two headers in front of the same bytes agree. -/
lemma originHeader_append_inj {a a' : SocketAddr} (ha : a.IsOrigin) (ha' : a'.IsOrigin)
    {p p' : Bytes} (h : originHeader a ++ p = originHeader a' ++ p') : a = a' ∧ p = p' := by
  have h1 : extractOriginSocketAddrFromDatagram (originHeader a ++ p) = .ret (some a, p) :=
    extract_eq_ret_some_iff.mpr ⟨ha, rfl⟩
  have h2 : extractOriginSocketAddrFromDatagram (originHeader a ++ p) = .ret (some a', p') :=
    extract_eq_ret_some_iff.mpr ⟨ha', h⟩
  rw [h1] at h2
  simpa using h2

/-- `Ipv4Addr::to_ipv6_mapped`: the address `::ffff:a.b.c.d`. -/
def Ipv4Addr.toIpv6Mapped (ip : Ipv4Addr) : Ipv6Addr where
  octets := Vector.replicate 10 (0 : UInt8) ++ #v[(0xff : UInt8), 0xff] ++ ip.octets

/-- **A tunnel datagram and its origin and payload determine each other.**  The extractor undoes
`to_datagram`, and `to_datagram` undoes the extractor; so two different origins or payloads never
share a datagram, and the address extracted for an IPv4-mapped origin is that IPv6 address. -/
theorem toDatagram_bijective :
    (∀ (a : SocketAddr) (data : Bytes) (n : ℕ), a.IsOrigin → n ≤ data.length →
      ∃ w, toDatagram a data n = .ret w ∧
        extractOriginSocketAddrFromDatagram w = .ret (some a, data.take n)) ∧
    (∀ (w p : Bytes) (a : SocketAddr),
      extractOriginSocketAddrFromDatagram w = .ret (some a, p) →
        a.IsOrigin ∧ toDatagram a p p.length = .ret w) ∧
    (∀ (a a' : SocketAddr) (data data' : Bytes) (n n' : ℕ) (w : Bytes), a.IsOrigin → a'.IsOrigin →
      toDatagram a data n = .ret w → toDatagram a' data' n' = .ret w →
        a = a' ∧ data.take n = data'.take n') ∧
    (∀ (ip : Ipv4Addr) (port : UInt16) (data : Bytes) (n : ℕ) (w p : Bytes) (a : SocketAddr),
      toDatagram (.v6 ip.toIpv6Mapped port 0 0) data n = .ret w →
      extractOriginSocketAddrFromDatagram w = .ret (some a, p) →
        a = .v6 ip.toIpv6Mapped port 0 0) := by
  refine ⟨fun a data n ha hn => ?_, fun w p a h => ?_, fun a a' data data' n n' w ha ha' h h' => ?_,
    fun ip port data n w p a h hx => ?_⟩
  · exact ⟨originHeader a ++ data.take n, toDatagram_eq_ret_iff.mpr ⟨hn, rfl⟩,
      extract_eq_ret_some_iff.mpr ⟨ha, rfl⟩⟩
  · obtain ⟨ha, rfl⟩ := extract_eq_ret_some_iff.mp h
    exact ⟨ha, toDatagram_eq_ret_iff.mpr ⟨Nat.le_refl _, by rw [List.take_length]⟩⟩
  · obtain ⟨-, hw⟩ := toDatagram_eq_ret_iff.mp h
    obtain ⟨-, hw'⟩ := toDatagram_eq_ret_iff.mp h'
    exact originHeader_append_inj ha ha' (hw.symm.trans hw')
  · obtain ⟨-, hw⟩ := toDatagram_eq_ret_iff.mp h
    obtain ⟨ha, hw'⟩ := extract_eq_ret_some_iff.mp hx
    have hmapped : (SocketAddr.v6 ip.toIpv6Mapped port 0 0).IsOrigin := ⟨rfl, rfl⟩
    exact (originHeader_append_inj ha hmapped (hw'.symm.trans hw)).1

/-- An IPv4-mapped origin whose payload looks like a header of its own. -/
theorem toDatagram_bijective_mapped :
    (∃ w, toDatagram (.v6 (Ipv4Addr.toIpv6Mapped ⟨#v[10, 0, 0, 1]⟩) 8080 0 0) [0, 1, 2, 3] 3 =
          .ret w ∧
        extractOriginSocketAddrFromDatagram w =
          .ret (some (.v6 (Ipv4Addr.toIpv6Mapped ⟨#v[10, 0, 0, 1]⟩) 8080 0 0), [0, 1, 2])) ∧
      toDatagram (.v4 ⟨#v[10, 0, 0, 1]⟩ 8080) [] 0 = .ret [0, 10, 0, 0, 1, 31, 144] :=
  ⟨toDatagram_bijective.1 _ _ _ ⟨rfl, rfl⟩ (by decide),
    (toDatagram_bijective.2.1 [0, 10, 0, 0, 1, 31, 144] [] _ (by decide)).2⟩

end Siffleux

import LotterySystem.Http.Request
import LotterySystem.Text.Address
import LotterySystem.Text.Space

/-!
# The address of the client

`ClientIP` of `internal/middleware/clientip.go`. Behind trusted proxies the
address of the client is the right-most entry of `X-Forwarded-For` that is not
itself a trusted proxy; entries to the left of it are what the client sent.

`Appended` says what the infrastructure does to the header on the way: every hop
adds the address of its peer, behind a comma on the last line or on a line of
its own. Whatever lines the client sent, the hops stand at the end of the
flattened list, so that the scan from the right meets them first.
-/

namespace LotterySystem.Http

open Text

/-- A prefix of the list contains the address. -/
def isTrusted (trusted : List Prefix) (a : Addr) : Bool :=
  trusted.any fun p => p.contains a.unmap

def peerAddr (remoteAddr : List Char) : Option Addr :=
  let host := (splitHostPort remoteAddr).getD remoteAddr
  (parseAddr host).map Addr.unmap

/-- The entries of all lines. -/
def forwardedHops (values : List (List Char)) : List (List Char) :=
  values.flatMap fun v => v.splitOn ','

/-- The loop of `fromForwardedFor`, over the hops from the right. -/
def lastUntrusted (trusted : Addr → Bool) : List (List Char) → Option Addr
  | [] => none
  | hop :: hops =>
      match parseAddr (trimSpace hop) with
      | none => none
      | some a => if trusted a.unmap then lastUntrusted trusted hops else some a.unmap

def fromForwardedFor (values : List (List Char)) (trusted : Addr → Bool) : Option Addr :=
  lastUntrusted trusted (forwardedHops values).reverse

/-- The middleware in front of the handler `next`. -/
def clientIP {ρ : Type} (trusted : List Prefix) (next : Request → ρ) (r : Request) : ρ :=
  if trusted.length = 0 then next r
  else
    match peerAddr r.remoteAddr with
    | none => next r
    | some peer =>
        if !isTrusted trusted peer then next r
        else
          match fromForwardedFor (r.header.values "X-Forwarded-For") (isTrusted trusted) with
          | some ip => next { r with remoteAddr := ip.format }
          | none =>
              match parseAddr (trimSpace (r.header.get "X-Real-IP")) with
              | some ip => next { r with remoteAddr := ip.unmap.format }
              | none => next r

/-- The TCP peer is a trusted proxy. -/
def PeerTrusted (trusted : List Prefix) (remoteAddr : List Char) : Prop :=
  ∃ peer ∈ peerAddr remoteAddr, isTrusted trusted peer = true

/-- The lines of a header after hops have been added to those that the client sent. -/
inductive Appended (client : List (List Char)) : List (List Char) → List (List Char) → Prop
  | sent : Appended client [] client
  | line {hops lines : List (List Char)} {hop : List Char} (h : Appended client hops lines)
      (hcomma : ',' ∉ hop) : Appended client (hops ++ [hop]) (lines ++ [hop])
  | comma {hops lines : List (List Char)} {last hop : List Char}
      (h : Appended client hops (lines ++ [last])) (hcomma : ',' ∉ hop) :
      Appended client (hops ++ [hop]) (lines ++ [last ++ ',' :: hop])

section Spoofing

variable {trusted : List Prefix} {client hops values : List (List Char)} {c : List Char} {a : Addr}

theorem isTrusted_unmap (trusted : List Prefix) (a : Addr) :
    isTrusted trusted a.unmap = isTrusted trusted a := by
  rw [isTrusted, isTrusted, a.unmap_unmap]

/-- However they were added, the hops are the last entries. -/
theorem Appended.forwardedHops_eq (h : Appended client hops values) :
    forwardedHops values = forwardedHops client ++ hops := by
  induction h with
  | sent => exact (List.append_nil _).symm
  | line _ hcomma ih =>
      rw [forwardedHops, List.flatMap_append, ← forwardedHops, ih, List.flatMap_singleton,
        List.splitOn_eq_singleton hcomma, List.append_assoc]
  | @comma hops lines last hop _ hcomma ih =>
      rw [forwardedHops, List.flatMap_append, List.flatMap_singleton] at ih ⊢
      rw [List.splitOn_append_cons_self, List.splitOn_eq_singleton hcomma, ← List.append_assoc, ih,
        List.append_assoc]

/-- A trusted hop is passed over. -/
theorem lastUntrusted_append (hhops : ∀ hop ∈ hops, ∃ b ∈ parseAddr (trimSpace hop),
    isTrusted trusted b = true) (rest : List (List Char)) :
    lastUntrusted (isTrusted trusted) (hops ++ rest) = lastUntrusted (isTrusted trusted) rest := by
  induction hops with
  | nil => rfl
  | cons hop hops ih =>
      obtain ⟨⟨b, hparse, hb⟩, hrest⟩ := List.forall_mem_cons.mp hhops
      rw [List.cons_append, lastUntrusted, hparse]
      simp only [isTrusted_unmap, hb, if_true]
      exact ih hrest

/-- The scan ends at the hop in front of the trusted ones. -/
theorem fromForwardedFor_eq (h : Appended client (c :: hops) values)
    (hparse : parseAddr (trimSpace c) = some a) (ha : isTrusted trusted a = false)
    (hhops : ∀ hop ∈ hops, ∃ b ∈ parseAddr (trimSpace hop), isTrusted trusted b = true) :
    fromForwardedFor values (isTrusted trusted) = some a.unmap := by
  have hreverse : ∀ hop ∈ hops.reverse, ∃ b ∈ parseAddr (trimSpace hop),
      isTrusted trusted b = true := fun hop hmem => hhops hop (List.mem_reverse.mp hmem)
  rw [fromForwardedFor, h.forwardedHops_eq, List.reverse_append, List.reverse_cons,
    List.append_assoc, lastUntrusted_append hreverse, List.singleton_append, lastUntrusted, hparse]
  simp only [isTrusted_unmap, ha, Bool.false_eq_true, if_false]

theorem clientIP_of_untrusted {ρ : Type} {next : Request → ρ} {r : Request}
    (h : trusted = [] ∨ ¬ PeerTrusted trusted r.remoteAddr) : clientIP trusted next r = next r := by
  rw [clientIP]
  split
  · rfl
  · rename_i hne
    cases hpeer : peerAddr r.remoteAddr with
    | none => rfl
    | some peer =>
        have hpeer' : isTrusted trusted peer = false := by
          rcases h with rfl | hnot
          · exact absurd rfl hne
          · exact Bool.eq_false_iff.mpr fun htrue => hnot ⟨peer, hpeer, htrue⟩
        simp only [hpeer', Bool.not_false, if_true]

/-- What a request is handed on with when the peer is trusted. -/
def forwardedRequest (trusted : List Prefix) (r : Request) : Request :=
  match fromForwardedFor (r.header.values "X-Forwarded-For") (isTrusted trusted) with
  | some ip => { r with remoteAddr := ip.format }
  | none =>
      match parseAddr (trimSpace (r.header.get "X-Real-IP")) with
      | some ip => { r with remoteAddr := ip.unmap.format }
      | none => r

theorem clientIP_of_peer {ρ : Type} {next : Request → ρ} {r : Request}
    (hpeer : PeerTrusted trusted r.remoteAddr) :
    clientIP trusted next r = next (forwardedRequest trusted r) := by
  obtain ⟨peer, hmem, htrue⟩ := hpeer
  have hne : trusted.length ≠ 0 := by
    intro hzero
    rw [List.length_eq_zero_iff.mp hzero] at htrue
    cases htrue
  rw [clientIP, if_neg hne, hmem, forwardedRequest]
  simp only [htrue, Bool.not_true, Bool.false_eq_true, if_false]
  split
  · rfl
  · split <;> rfl

theorem clientIP_of_trusted {ρ : Type} {next : Request → ρ} {r : Request}
    (hpeer : PeerTrusted trusted r.remoteAddr)
    (h : fromForwardedFor (r.header.values "X-Forwarded-For") (isTrusted trusted) = some a) :
    clientIP trusted next r = next { r with remoteAddr := a.format } := by
  rw [clientIP_of_peer hpeer, forwardedRequest, h]

/-- No header can change the address of a request that a peer without trust delivers; and behind
trusted proxies the next handler sees the address at which the request reached them, whatever the
client had put into the header and however the hops were added to it. -/
theorem client_ip_not_spoofable {ρ : Type} (trusted : List Prefix) (next : Request → ρ) :
    (∀ r : Request, trusted = [] ∨ ¬ PeerTrusted trusted r.remoteAddr →
      clientIP trusted next r = next r) ∧
    ∀ (r : Request) (client hops : List (List Char)) (c : List Char) (a : Addr),
      PeerTrusted trusted r.remoteAddr →
      Appended client (c :: hops) (r.header.values "X-Forwarded-For") →
      parseAddr (trimSpace c) = some a → isTrusted trusted a = false →
      (∀ hop ∈ hops, ∃ b ∈ parseAddr (trimSpace hop), isTrusted trusted b = true) →
      clientIP trusted next r = next { r with remoteAddr := a.unmap.format } := by
  constructor
  · exact fun r h => clientIP_of_untrusted h
  · intro r client hops c a hpeer happended hparse ha hhops
    exact clientIP_of_trusted hpeer (fromForwardedFor_eq happended hparse ha hhops)

end Spoofing

/-! ## A chain of two hops -/

/-- A client that forges an entry and an `X-Real-IP`, behind two proxies of `10.0.0.0/8`. -/
def forgedRequest : Request where
  method := "GET"
  path := "/events".toList
  header name :=
    if name = "X-Forwarded-For".toList then
      ["1.2.3.4, ::ffff:203.0.113.7".toList, "10.0.0.9".toList]
    else if name = "X-Real-Ip".toList then ["5.6.7.8".toList]
    else []
  remoteAddr := "10.0.0.5:443".toList
  body := none

theorem client_ip_not_spoofable_sample :
    clientIP [.v4 0x0a000000 8] Request.remoteAddr forgedRequest = "203.0.113.7".toList ∧
      clientIP [.v4 0xc0a80000 16] Request.remoteAddr forgedRequest = "10.0.0.5:443".toList := by
  have hsent : Appended ["1.2.3.4".toList] [] ([] ++ ["1.2.3.4".toList]) := .sent
  have hbehind := (client_ip_not_spoofable [.v4 0x0a000000 8] Request.remoteAddr).2 forgedRequest
    ["1.2.3.4".toList] ["10.0.0.9".toList] " ::ffff:203.0.113.7".toList
    (.v6 0xffffcb007107 []) ⟨.v4 0x0a000005, by decide +kernel, by decide +kernel⟩
    (.line (.comma hsent (by decide +kernel)) (by decide +kernel))
    (by decide +kernel) (by decide +kernel)
    (List.forall_mem_singleton.mpr ⟨.v4 0x0a000009, by decide +kernel, by decide +kernel⟩)
  have hdirect := (client_ip_not_spoofable [.v4 0xc0a80000 16] Request.remoteAddr).1 forgedRequest
    (Or.inr (by
      rintro ⟨peer, hpeer, htrue⟩
      have heq : peer = .v4 0x0a000005 := by
        have : peerAddr forgedRequest.remoteAddr = some (.v4 0x0a000005) := by decide +kernel
        rw [this] at hpeer
        exact (Option.some.inj hpeer).symm
      rw [heq] at htrue
      exact absurd htrue (by decide +kernel)))
  refine ⟨hbehind.trans ?_, hdirect⟩
  decide +kernel

/-! ## Malformed chains -/

/-- Read from the right, the entries are trusted proxies up to one that is no address. -/
def MalformedChain (trusted : List Prefix) (values : List (List Char)) : Prop :=
  ∃ before bad hops, forwardedHops values = before ++ bad :: hops ∧
    parseAddr (trimSpace bad) = none ∧
    ∀ hop ∈ hops, ∃ b ∈ parseAddr (trimSpace hop), isTrusted trusted b = true

section Malformed

variable {trusted : List Prefix} {values : List (List Char)}

theorem fromForwardedFor_of_malformed (h : MalformedChain trusted values) :
    fromForwardedFor values (isTrusted trusted) = none := by
  obtain ⟨before, bad, hops, hvalues, hbad, hhops⟩ := h
  have hreverse : ∀ hop ∈ hops.reverse, ∃ b ∈ parseAddr (trimSpace hop),
      isTrusted trusted b = true := fun hop hmem => hhops hop (List.mem_reverse.mp hmem)
  rw [fromForwardedFor, hvalues, List.reverse_append, List.reverse_cons, List.append_assoc,
    lastUntrusted_append hreverse, List.singleton_append, lastUntrusted, hbad]

/-- A chain without an address that counts is passed over in favour of `X-Real-IP`. -/
theorem remoteAddr_clientIP_of_none {r : Request} (hpeer : PeerTrusted trusted r.remoteAddr)
    (h : fromForwardedFor (r.header.values "X-Forwarded-For") (isTrusted trusted) = none) :
    (clientIP trusted id r).remoteAddr =
      ((parseAddr (trimSpace (r.header.get "X-Real-IP"))).map (·.unmap.format)).getD
        r.remoteAddr := by
  rw [clientIP_of_peer hpeer, forwardedRequest, h]
  cases parseAddr (trimSpace (r.header.get "X-Real-IP")) with
  | none => rfl
  | some ip => rfl

/-- Behind a trusted proxy a malformed chain leaves the address of the peer in place exactly if
`X-Real-IP` holds no other one. -/
theorem malformed_chain_keeps_peer_iff (trusted : List Prefix) (r : Request)
    (hpeer : PeerTrusted trusted r.remoteAddr)
    (h : MalformedChain trusted (r.header.values "X-Forwarded-For")) :
    (clientIP trusted id r).remoteAddr = r.remoteAddr ↔
      ∀ ip ∈ parseAddr (trimSpace (r.header.get "X-Real-IP")), ip.unmap.format = r.remoteAddr := by
  rw [remoteAddr_clientIP_of_none hpeer (fromForwardedFor_of_malformed h)]
  cases parseAddr (trimSpace (r.header.get "X-Real-IP")) with
  | none => simp
  | some ip => simp

end Malformed

/-- A request through the proxy `10.0.0.5`, with an entry that is no address. -/
def malformedRequest (realIP : List (List Char)) : Request where
  method := "GET"
  path := "/events".toList
  header name :=
    if name = "X-Forwarded-For".toList then ["203.0.113.7, unknown".toList]
    else if name = "X-Real-Ip".toList then realIP
    else []
  remoteAddr := "10.0.0.5:443".toList
  body := none

theorem malformedRequest_peer (realIP : List (List Char)) :
    PeerTrusted [.v4 0x0a000000 8] (malformedRequest realIP).remoteAddr := by
  have hpeer : peerAddr "10.0.0.5:443".toList = some (.v4 0x0a000005) := by decide +kernel
  exact ⟨.v4 0x0a000005, hpeer, by decide +kernel⟩

theorem malformedRequest_chain (realIP : List (List Char)) :
    MalformedChain [.v4 0x0a000000 8]
      ((malformedRequest realIP).header.values "X-Forwarded-For") := by
  refine ⟨["203.0.113.7".toList], " unknown".toList, [], ?_, by decide +kernel, ?_⟩
  · change forwardedHops ["203.0.113.7, unknown".toList] = _
    decide +kernel
  · exact List.forall_mem_nil _

theorem malformed_chain_keeps_peer_iff_sample :
    (clientIP [.v4 0x0a000000 8] id (malformedRequest [])).remoteAddr = "10.0.0.5:443".toList := by
  apply (malformed_chain_keeps_peer_iff _ _ (malformedRequest_peer [])
    (malformedRequest_chain [])).mpr
  intro ip hip
  have hnone : parseAddr (trimSpace ((malformedRequest []).header.get "X-Real-IP")) = none := by
    decide +kernel
  rw [hnone] at hip
  cases hip

/-- The chain is malformed, and yet the address is that of `X-Real-IP`. -/
theorem malformed_chain_overridden :
    PeerTrusted [.v4 0x0a000000 8] (malformedRequest ["5.6.7.8".toList]).remoteAddr ∧
      MalformedChain [.v4 0x0a000000 8]
        ((malformedRequest ["5.6.7.8".toList]).header.values "X-Forwarded-For") ∧
      (clientIP [.v4 0x0a000000 8] id (malformedRequest ["5.6.7.8".toList])).remoteAddr ≠
        (malformedRequest ["5.6.7.8".toList]).remoteAddr := by
  refine ⟨malformedRequest_peer _, malformedRequest_chain _, ?_⟩
  decide +kernel

end LotterySystem.Http

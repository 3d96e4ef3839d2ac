import Pfv.Services.ClientAddress

/-!
# Forging the address of a client

What a client writes into its headers should not change the address it is counted under. Behind a
proxy that is not trusted no header counts. Behind a trusted one the address is the rightmost entry
of `X-Forwarded-For` that is not a trusted proxy, whatever stands to its left. When there is no such
entry, though, the header `do-connecting-ip` is believed in every runtime.

## Main definitions

* `AgreeFromUntrusted`: two lists of entries agree from their rightmost untrusted entry on.
* `SameAddress`: two requests of one peer are counted under the same address when they should be.

## Main results

* `getClientIp_of_split`, `getClientIp_of_trusted`: the address behind a trusted proxy.
* `sameAddress_iff`: the pairs of requests that are counted as they should be.
-/

namespace Pfv

/-- The entries of `X-Forwarded-For`. -/
def ClientRequest.entries (r : ClientRequest) : List String :=
  parseXff (r.header "x-forwarded-for")

/-- Every entry is a trusted proxy. -/
def OnlyProxies (l : List String) : Prop := ∀ e ∈ l, isTrustedProxy (some e) = true

instance (l : List String) : Decidable (OnlyProxies l) :=
  inferInstanceAs (Decidable (∀ e ∈ l, _))

/-- Two lists of entries agree from the rightmost untrusted entry on, or have none. -/
def AgreeFromUntrusted (l l' : List String) : Prop :=
  (∃ e tail front front', isTrustedProxy (some e) = false ∧ OnlyProxies tail ∧
    l = front ++ e :: tail ∧ l' = front' ++ e :: tail) ∨
  OnlyProxies l ∧ OnlyProxies l'

/-- Outside the runtime of the App Platform, two requests of one peer are counted under the same
address: whatever their headers when the peer is not trusted, and when it is, if their lists agree
from the rightmost untrusted entry on. -/
def SameAddress (peer : Option String) (headers headers' : List (String × String)) : Prop :=
  let r : ClientRequest := { client := peer, headers := headers }
  let r' : ClientRequest := { client := peer, headers := headers' }
  (isTrustedProxy peer = false → getClientIp false r = getClientIp false r') ∧
    (isTrustedProxy peer = true → AgreeFromUntrusted r.entries r'.entries →
      getClientIp false r = getClientIp false r')

section Requests

variable {r : ClientRequest}

theorem getClientIp_of_not_trusted (h : isTrustedProxy r.client = false) :
    getClientIp false r = r.peer := by
  simp [getClientIp, h]

/-- Behind a trusted proxy the walk from the right stops at the first untrusted entry. -/
theorem getClientIp_of_split (h : isTrustedProxy r.client = true) {e : String}
    {front tail : List String} (he : isTrustedProxy (some e) = false) (htail : OnlyProxies tail)
    (hentries : r.entries = front ++ e :: tail) : getClientIp false r = e := by
  have hfind : r.entries.reverse.find? (fun e => !isTrustedProxy (some e)) = some e := by
    have hskip : tail.reverse.find? (fun e => !isTrustedProxy (some e)) = none :=
      List.find?_eq_none.mpr fun x hx => by simp [htail x (List.mem_reverse.mp hx)]
    rw [hentries, List.reverse_append, List.reverse_cons, List.append_assoc, List.find?_append,
      hskip, Option.none_or]
    simp [he]
  simp only [ClientRequest.entries] at hfind
  simp [getClientIp, h, hfind]

/-- When every entry is a trusted proxy, the address is the one of `do-connecting-ip`. -/
theorem getClientIp_of_trusted (h : isTrustedProxy r.client = true)
    (hentries : OnlyProxies r.entries) : getClientIp false r = r.doIp.getD r.peer := by
  have hfind : r.entries.reverse.find? (fun e => !isTrustedProxy (some e)) = none :=
    List.find?_eq_none.mpr fun x hx => by simp [hentries x (List.mem_reverse.mp hx)]
  simp only [ClientRequest.entries] at hfind
  simp [getClientIp, h, hfind]

end Requests

/-- Two requests of one peer are counted under the same address when they should be, just unless the
peer is trusted, neither list has an untrusted entry, and their headers `do-connecting-ip` name
different addresses, one that is missing or empty standing for the peer. -/
theorem sameAddress_iff (peer : Option String) (headers headers' : List (String × String)) :
    SameAddress peer headers headers' ↔
      (isTrustedProxy peer = true → OnlyProxies (ClientRequest.mk peer headers).entries →
        OnlyProxies (ClientRequest.mk peer headers').entries →
        (ClientRequest.mk peer headers).doIp.getD (ClientRequest.mk peer headers).peer =
          (ClientRequest.mk peer headers').doIp.getD (ClientRequest.mk peer headers').peer) := by
  constructor
  · rintro ⟨-, hsame⟩ hpeer honly honly'
    have heq := hsame hpeer (Or.inr ⟨honly, honly'⟩)
    rwa [getClientIp_of_trusted hpeer honly, getClientIp_of_trusted hpeer honly'] at heq
  · intro h
    refine ⟨fun hpeer => ?_, ?_⟩
    · rw [getClientIp_of_not_trusted hpeer, getClientIp_of_not_trusted hpeer]
      rfl
    · rintro hpeer (⟨e, tail, front, front', he, htail, hentries, hentries'⟩ | ⟨honly, honly'⟩)
      · rw [getClientIp_of_split hpeer he htail hentries,
          getClientIp_of_split hpeer he htail hentries']
      · rw [getClientIp_of_trusted hpeer honly, getClientIp_of_trusted hpeer honly']
        exact h hpeer honly honly'

/-- Behind a trusted proxy that sends no `X-Forwarded-For`, a client chooses its address. -/
theorem doConnectingIp_forged :
    ¬SameAddress (some "10.0.0.5") [("do-connecting-ip", "203.0.113.7")]
      [("do-connecting-ip", "198.51.100.9")] := by
  rw [sameAddress_iff]
  intro h
  have hforged := h (by decide +kernel) (by decide +kernel) (by decide +kernel)
  exact absurd hforged (by decide +kernel)

end Pfv

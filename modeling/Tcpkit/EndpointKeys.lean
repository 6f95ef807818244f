import Tcpkit.Sniffer

/-! The text keys of the two tables name their endpoints: no key is cut by the
buffer it is printed into, and different endpoints have different keys. -/

namespace Tcpkit

theorem strlen_endpointText_le (e : Endpoint) : (endpointText e).strlen ≤ 16 := by
  have hip : (CString.decimal e.ip.toNat).strlen ≤ 10 :=
    CString.strlen_decimal_le (by decide) (e.ip.toNat_lt.trans (by decide))
  have hport : (CString.decimal e.port.toNat).strlen ≤ 5 :=
    CString.strlen_decimal_le (by decide) (e.port.toNat_lt.trans (by decide))
  rw [endpointText, CString.strlen_joined]
  omega

theorem endpointKey_eq (e : Endpoint) : endpointKey e = endpointText e :=
  CString.snprintf_eq_self (by have := strlen_endpointText_le e; omega)

theorem strlen_pairText_le (client server : Endpoint) :
    (CString.joined 0x20 space_ne_nul (endpointText client) (endpointText server)).strlen ≤ 33 := by
  have hc := strlen_endpointText_le client
  have hs := strlen_endpointText_le server
  rw [CString.strlen_joined]
  omega

theorem pairKey_eq (client server : Endpoint) :
    pairKey client server =
      CString.joined 0x20 (by decide) (endpointText client) (endpointText server) :=
  CString.snprintf_eq_self (by have := strlen_pairText_le client server; omega)

theorem notMem_decimal {c : UInt8} (hc : c.toNat < 48 ∨ 57 < c.toNat) (n : Nat) :
    c ∉ (CString.decimal n).bytes := by
  intro hm
  have hd := CString.toNat_of_mem_decimal hm
  omega

theorem blank_notMem_endpointText (e : Endpoint) : (0x20 : UInt8) ∉ (endpointText e).bytes := by
  rw [endpointText, CString.joined_bytes, List.mem_append, List.mem_cons]
  intro hh
  rcases hh with h | h | h
  · exact notMem_decimal (by decide) _ h
  · exact absurd h (by decide)
  · exact notMem_decimal (by decide) _ h

theorem endpointText_injective : Function.Injective endpointText := by
  rintro ⟨ip, port⟩ ⟨ip', port'⟩ h
  have hcolon (n : Nat) : (0x3a : UInt8) ∉ (CString.decimal n).bytes :=
    notMem_decimal (by decide) n
  obtain ⟨hip, hport⟩ := (CString.joined_inj (hcolon _) (hcolon _)).mp h
  have hi := UInt32.toNat_inj.mp (CString.decimal_injective hip)
  have hp := UInt16.toNat_inj.mp (CString.decimal_injective hport)
  rw [Endpoint.mk.injEq]
  exact ⟨hi, hp⟩

theorem endpointKey_injective : Function.Injective endpointKey := by
  intro e e' h
  rw [endpointKey_eq, endpointKey_eq] at h
  exact endpointText_injective h

def slotKey (slot : Endpoint × Endpoint) : CString := pairKey slot.1 slot.2

theorem slotKey_injective : Function.Injective slotKey := by
  rintro ⟨client, server⟩ ⟨client', server'⟩ h
  rw [slotKey, slotKey, pairKey_eq, pairKey_eq,
    CString.joined_inj (blank_notMem_endpointText _) (blank_notMem_endpointText _)] at h
  exact Prod.ext (endpointText_injective h.1) (endpointText_injective h.2)

theorem pairKey_inj {client server client' server' : Endpoint} :
    pairKey client server = pairKey client' server' ↔ client = client' ∧ server = server' := by
  constructor
  · intro h
    exact Prod.ext_iff.mp (@slotKey_injective (client, server) (client', server') h)
  · rintro ⟨rfl, rfl⟩
    rfl

/-- Both buffers hold every key with its NUL, each key names its endpoints, and a response looks
for the key of the requests that went the other way. -/
theorem textKeys_faithful :
    (∀ e, (endpointText e).strlen + 1 ≤ 32 ∧ endpointKey e = endpointText e) ∧
    (∀ client server,
      (CString.joined 0x20 space_ne_nul (endpointText client) (endpointText server)).strlen + 1 ≤ 64 ∧
        pairKey client server =
          CString.joined 0x20 space_ne_nul (endpointText client) (endpointText server)) ∧
    (∀ e e', endpointKey e = endpointKey e' ↔ e = e') ∧
    (∀ client server client' server',
      pairKey client server = pairKey client' server' ↔ client = client' ∧ server = server') ∧
    ∀ request response : UserPacket,
      pairKey response.dst response.src = pairKey request.src request.dst ↔
        response.src = request.dst ∧ response.dst = request.src := by
  refine ⟨fun e => ?_, fun client server => ?_, fun e e' => endpointKey_injective.eq_iff,
    fun client server client' server' => pairKey_inj, fun request response => ?_⟩
  · have hlen := strlen_endpointText_le e
    exact ⟨by omega, endpointKey_eq e⟩
  · have hlen := strlen_pairText_le client server
    exact ⟨by omega, pairKey_eq client server⟩
  · rw [pairKey_inj, and_comm]

end Tcpkit

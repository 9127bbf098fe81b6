import PathPolicy.Proofs.Sessions

/-! Addresses, the texts of their masks and their networks. An address can be read back from each
text that it stands in, and two addresses are in one network if masking leaves the same of both. -/

namespace PathPolicy

namespace Ipv4

theorem ofText?_text (ip : Ipv4) : ofText? ip.text = some ip := ofChars?_text ip

end Ipv4

namespace Address

variable {x y : Address}

theorem clamped_length (ip : Ipv4) (x : Address) : clamped ip x.length.val = ⟨ip, x.length⟩ := by
  have hle : x.length.val ≤ 32 := Nat.lt_succ_iff.mp x.length.isLt
  have hlength : (clamped ip x.length.val).length = x.length := by
    apply Fin.ext
    show min x.length.val 32 = x.length.val
    omega
  exact congrArg (Address.mk ip) hlength

theorem network_network (x : Address) : x.network.network = x.network := by
  have hmask : x.network.mask = x.mask := rfl
  have hip : x.ip &&& x.mask &&& x.mask = x.ip &&& x.mask := by
    rw [BitVec.and_assoc, BitVec.and_self]
  show Address.mk (x.ip &&& x.mask &&& x.network.mask) x.length = ⟨x.ip &&& x.mask, x.length⟩
  rw [hmask, hip]

theorem sameNetwork_iff :
    x.sameNetwork y = true ↔ x.network = (clamped y.ip x.length.val).network := by
  have hnetwork : (clamped y.ip x.length.val).network = ⟨y.ip &&& x.mask, x.length⟩ := by
    rw [clamped_length]
    rfl
  rw [hnetwork, sameNetwork, decide_eq_true_eq, network, Address.mk.injEq]
  exact ⟨fun h => ⟨h, rfl⟩, fun h => h.1⟩

/-- An address is read back from its text, from the address and the mask that are written for its
network, and from a line of a configuration. The wildcard is the complement of the mask. Taking the
network twice changes nothing, and addresses of the same network are those with equal networks. -/
theorem recovered_from_texts (x : Address) :
    x.length.val ≤ 32 ∧ parse x.text = .ok x ∧
    (∃ ip mask, Ipv4.ofText? x.ip.text = some ip ∧ Ipv4.ofText? x.mask.text = some mask ∧
      mask.weight = x.length.val ∧ clamped ip mask.weight = x ∧
      Ipv4.ofText? x.wildcard.text = some (~~~mask)) ∧
    (∀ (s : ConfigReader) node, s.device = some node → s.inBgp = true →
      ConfigReader.Reads s [BgpConfig.networkLine x]
        (s.withBgp fun b => { b with networks := b.networks ++ [x] })) ∧
    x.network.network = x.network ∧
    ∀ y : Address, x.sameNetwork y = true ↔
      x.network = (clamped y.ip x.length.val).network := by
  refine ⟨Nat.lt_succ_iff.mp x.length.isLt, x.parse_text,
    ⟨x.ip, x.mask, x.ip.ofText?_text, x.mask.ofText?_text, x.weight_mask, x.clamped_weight_mask,
      ?_⟩,
    fun s node hnode hbgp => BgpConfig.reads_networkLine hnode hbgp x, x.network_network,
    fun y => sameNetwork_iff⟩
  exact x.wildcard.ofText?_text

end Address

end PathPolicy

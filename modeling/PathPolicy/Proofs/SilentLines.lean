import PathPolicy.Config.Device
import PathPolicy.Proofs.Statements

/-! The written lines that say nothing to the reader: interfaces, OSPF, community lists, static routes
and how many paths BGP uses. -/

namespace PathPolicy

theorem written_maxPathsLine (n : Nat) : Written (maxPathsLine n) true none := by
  have hline : (maxPathsLine n).toList = " maximum-paths ".toList ++ ([] ++ Nat.toDigits 10 n) := by
    unfold maxPathsLine
    dsimp only [toString]
    simp
  exact Written.of_indented hline (Text.isWord_toDigits n) (by simp) rfl String.toList_ofList
    (by decide) (by decide)

theorem written_multipathRelax : Written " bgp bestpath as-path multipath-relax" true none := by
  have hline : " bgp bestpath as-path multipath-relax".toList =
      " bgp bestpath as-path ".toList ++ ([] ++ "multipath-relax".toList) := by simp
  exact Written.of_indented hline (by decide) (by simp) rfl String.toList_ofList
    (by decide) (by decide)

theorem written_stanzaEnd : Written stanzaEnd false none :=
  ⟨by decide, by decide, by decide, by decide⟩

namespace InterfaceConfig

theorem written_opening {name : String} (hname : '\n' ∉ name.toList) :
    Written s!"interface {name}" false none := by
  have hline : (s!"interface {name}").toList = "interface ".toList ++ name.toList := by
    dsimp only [toString]
    simp
  -- a carriage return at the end of the name is dropped
  obtain ⟨rest, hrest⟩ : ∃ rest, Text.withoutReturn (s!"interface {name}").toList =
      "interface ".toList ++ rest := by
    rw [hline]
    rcases List.eq_nil_or_concat name.toList with hnil | ⟨front, c, hconcat⟩
    · exact ⟨[], by rw [hnil]; decide⟩
    · rw [hconcat, List.concat_eq_append, ← List.append_assoc, Text.withoutReturn_concat]
      split
      · exact ⟨front, rfl⟩
      · exact ⟨front ++ [c], List.append_assoc _ _ _⟩
  refine ⟨by simp [hline, hname], ?_, ?_, ?_⟩ <;> rw [hrest]
  · rfl
  · have hcons : "interface ".toList ++ rest = 'i' :: ("nterface ".toList ++ rest) := by simp
    rw [hcons, Text.trim_cons (by decide)]
    simp
  · simp [ConfigReader.endsStanza]

theorem written_address (ip mask : Ipv4) :
    Written s!" ip address {ip.text} {mask.text}" true none := by
  have hline : (s!" ip address {ip.text} {mask.text}").toList =
      " ip address ".toList ++ ((ip.text.toList ++ [' ']) ++ mask.text.toList) := by
    dsimp only [toString]
    simp
  have hip : '\n' ∉ ip.text.toList := ip.isWord_text.notMem (by decide)
  exact Written.of_indented hline mask.isWord_text (by simp [hip]) rfl String.toList_ofList
    (by decide) (by decide)

theorem written_description {text : String} (h : '\n' ∉ text.toList) :
    Written s!" description \"{text}\"" true none := by
  have hline : (s!" description \"{text}\"").toList =
      " description \"".toList ++ (text.toList ++ ['"']) := by
    dsimp only [toString]
    simp
  exact Written.of_indented hline (by decide) (by simp [h]) rfl String.toList_ofList
    (by decide) (by decide)

theorem written_ospfCost (cost : Nat) : Written s!" ip ospf cost {cost}" true none := by
  have hline : (s!" ip ospf cost {cost}").toList =
      " ip ospf cost ".toList ++ ([] ++ Nat.toDigits 10 cost) := by
    dsimp only [toString]
    simp
  exact Written.of_indented hline (Text.isWord_toDigits cost) (by simp) rfl String.toList_ofList
    (by decide) (by decide)

end InterfaceConfig

namespace OspfConfig

theorem written_opening (id : Nat) : Written s!"router ospf {id}" false none := by
  have hline : (s!"router ospf {id}").toList = "router ospf ".toList ++ ([] ++ Nat.toDigits 10 id) := by
    dsimp only [toString]
    simp
  exact Written.of_unindented hline (Text.isWord_toDigits id) (by simp) rfl String.toList_ofList
    (by decide)

/-- The networks of OSPF have no mask after them. -/
theorem written_networkLine (a : Address) : Written (networkLine a) true none := by
  have hline : (networkLine a).toList = " network ".toList ++
      ((a.ip.text.toList ++ ' ' :: (a.wildcard.text.toList ++ " area ".toList)) ++ "0".toList) := by
    unfold networkLine
    dsimp only [toString]
    simp
  have hmask : Statement.after? " mask " (' ' :: (a.wildcard.text.toList ++ (" area ".toList ++
      "0".toList))) = none := by
    obtain ⟨c, cs, hcons⟩ := List.exists_cons_of_ne_nil a.wildcard.isWord_text.ne_nil
    have hm : c ≠ 'm' := by
      rintro rfl
      exact Ipv4.notMem_text a.wildcard (c := 'm') (by decide) (by decide) (by simp [hcons])
    simp [Statement.after?, List.isPrefixOf?, hcons, Ne.symm hm]
  have hform : Statement.network? (" network ".toList ++
      ((a.ip.text.toList ++ ' ' :: (a.wildcard.text.toList ++ " area ".toList)) ++ "0".toList)) =
        none := by
    rw [Statement.network?, Statement.after?_append, List.append_assoc]
    simp only [List.cons_append, List.append_assoc, Option.bind_eq_bind, Option.bind_some,
      Statement.word?_append a.ip.isWord_text, hmask, Option.bind_none]
  have hip : '\n' ∉ a.ip.text.toList := a.ip.isWord_text.notMem (by decide)
  have hwildcard : '\n' ∉ a.wildcard.text.toList := a.wildcard.isWord_text.notMem (by decide)
  refine Written.of_indented hline (by decide) (by simp [hip, hwildcard]) ?_
    String.toList_ofList (by decide) (by decide)
  rw [Statement.ofLine?, hform]
  rfl

end OspfConfig

namespace CommunityList

theorem written_line {l : CommunityList} (hname : '\n' ∉ l.name.toList) :
    Written l.line false none := by
  have hline : l.line.toList = "ip community-list standard ".toList ++
      ((l.name.toList ++ " permit ".toList) ++ l.community.text.toList) := by
    unfold line
    dsimp only [toString]
    simp
  exact Written.of_unindented hline l.community.isWord_text (by simp [hname]) rfl
    String.toList_ofList (by decide)

end CommunityList

namespace StaticRouteConfig

theorem written_line (r : StaticRouteConfig) : Written r.line false none := by
  have hline : r.line.toList = "ip route ".toList ++ ((r.network.ip.text.toList ++ ' ' ::
      (r.network.mask.text.toList ++ ' ' :: (r.nextHop.text.toList ++ [' ']))) ++
        Nat.toDigits 10 r.distance) := by
    unfold line
    dsimp only [toString]
    simp
  have hnewline : ∀ ip : Ipv4, '\n' ∉ ip.text.toList := fun ip => ip.isWord_text.notMem (by decide)
  exact Written.of_unindented hline (Text.isWord_toDigits _) (by simp [hnewline]) rfl
    String.toList_ofList (by decide)

end StaticRouteConfig

end PathPolicy

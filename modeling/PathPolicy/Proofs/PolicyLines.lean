import PathPolicy.Config.Emit
import PathPolicy.Proofs.Statements

/-! The written lines that say something to the reader: names of devices, clauses of route maps,
prefix lists, BGP processes and sessions. -/

namespace PathPolicy

namespace DeviceConfig

variable {name : String}

theorem toList_headerLine (name : String) :
    (headerLine name).toList = "Configuration of ".toList ++ (name.toList ++ ":".toList) := by
  unfold headerLine
  dsimp only [toString]
  simp

theorem written_headerLine (hne : name ≠ "") (hnewline : '\n' ∉ name.toList) :
    Written (headerLine name) false (some (.device name.toList)) := by
  have hdevice : Statement.device? ("Configuration of ".toList ++ (name.toList ++ ":".toList)) =
      some (.device name.toList) :=
    Statement.device?_eq_some (Statement.after?_append _ _) (Statement.before?_append _ _) (by simpa)
  refine Written.of_unindented (toList_headerLine name) (by decide) (by simp [hnewline]) ?_
    String.toList_ofList (by decide)
  rw [Statement.ofLine?, hdevice]
  rfl

end DeviceConfig

/-- The name of a route map after its fixed first letters. -/
def routeMapBody (router neighbor : String) (d : Direction) : List Char :=
  router.toList ++ '_' :: (d.keyword.toList ++ '_' :: neighbor.toList)

theorem toList_routeMapName (router neighbor : String) (d : Direction) :
    (routeMapName router neighbor d).toList = "RMap_".toList ++ routeMapBody router neighbor d := by
  unfold routeMapName routeMapBody
  dsimp only [toString]
  simp

theorem newline_notMem_routeMapBody {router neighbor : String} (hrouter : '\n' ∉ router.toList)
    (hneighbor : '\n' ∉ neighbor.toList) (d : Direction) :
    '\n' ∉ routeMapBody router neighbor d := by
  have hkeyword : '\n' ∉ d.keyword.toList := by cases d <;> decide
  simp [routeMapBody, hrouter, hneighbor, hkeyword]

theorem splitRouteMapName?_routeMapBody (router neighbor : String) (d : Direction) :
    ConfigReader.splitRouteMapName? router (routeMapBody router neighbor d) = some (neighbor, d) := by
  have hrouter := Statement.after?_append router ('_' :: (d.keyword.toList ++ '_' :: neighbor.toList))
  have hsep : Statement.after? "_" ('_' :: (d.keyword.toList ++ '_' :: neighbor.toList)) =
      some (d.keyword.toList ++ '_' :: neighbor.toList) := Statement.after?_append "_" _
  simp only [ConfigReader.splitRouteMapName?, routeMapBody, hrouter, hsep, Option.bind_eq_bind,
    Option.bind_some]
  cases d with
  | incoming =>
    have hfrom : Statement.after? "from_" (Direction.incoming.keyword.toList ++ '_' :: neighbor.toList) =
        some neighbor.toList := Statement.after?_append "from_" _
    simp [hfrom]
  | outgoing =>
    have hfrom : Statement.after? "from_" (Direction.outgoing.keyword.toList ++ '_' :: neighbor.toList) =
        none := by simp [Statement.after?, Direction.keyword, List.isPrefixOf?]
    have hto : Statement.after? "to_" (Direction.outgoing.keyword.toList ++ '_' :: neighbor.toList) =
        some neighbor.toList := Statement.after?_append "to_" _
    simp [hfrom, hto]

namespace ClauseConfig

variable {name : String} {body : List Char}

theorem written_opening (hname : name.toList = "RMap_".toList ++ body) (hne : body ≠ [])
    (hnewline : '\n' ∉ body) (v : Verdict) (seq : Nat) :
    Written s!"route-map {name} {v.text} {seq}" false
      (some (.routeMap body v (Nat.toDigits 10 seq))) := by
  have hline : (s!"route-map {name} {v.text} {seq}").toList = "route-map RMap_".toList ++
      ((body ++ ' ' :: v.text.toList ++ [' ']) ++ Nat.toDigits 10 seq) := by
    dsimp only [toString]
    simp [hname]
  have hverdict : '\n' ∉ v.text.toList := by cases v <;> decide
  have hform : Statement.routeMap? ("route-map RMap_".toList ++
      ((body ++ ' ' :: v.text.toList ++ [' ']) ++ Nat.toDigits 10 seq)) =
        some (.routeMap body v (Nat.toDigits 10 seq)) := by
    have hspace : ' ' ∉ Nat.toDigits 10 seq := (Text.isWord_toDigits seq).notMem (by decide)
    have hsplit : Statement.splitLastSpace?
        ((body ++ ' ' :: v.text.toList ++ [' ']) ++ Nat.toDigits 10 seq) =
          some (body ++ ' ' :: v.text.toList, Nat.toDigits 10 seq) := by
      rw [List.append_assoc]
      exact Statement.splitLastSpace?_append _ hspace
    exact Statement.routeMap?_eq_some (Statement.after?_append _ _) hsplit
      (Statement.digits?_toDigits seq) (Statement.verdict?_append body v) hne
  refine Written.of_unindented hline (Text.isWord_toDigits seq) (by simp [hnewline, hverdict]) ?_
    String.toList_ofList (by decide)
  rw [Statement.ofLine?, hform]
  rfl

theorem isWord_community : Text.IsWord "community".toList := by decide

theorem written_conditionLine (c : Condition) (h : ∀ l ∈ c.prefixList?, Text.IsWord l.name.toList) :
    Written (conditionLine (ofCondition c)) true
      (some (.condition (ofCondition c).1.toList (ofCondition c).2.toList)) := by
  cases c with
  | prefixList l =>
    have hword : Text.IsWord l.name.toList := h l rfl
    have hline : (conditionLine (ofCondition (.prefixList l))).toList =
        " match ".toList ++ ("ip address prefix-list ".toList ++ l.name.toList) := by
      unfold conditionLine
      dsimp only [toString, ofCondition]
      simp
    have hform : Statement.condition? (" match ".toList ++
        ("ip address prefix-list ".toList ++ l.name.toList)) =
          some (.condition "ip address prefix-list".toList l.name.toList) := by
      rw [Statement.condition?, Statement.after?_append]
      change (Statement.prefixListValue? _ <|> _) >>= _ = _
      rw [Statement.prefixListValue?_append hword.ne_nil]
      rfl
    refine Written.of_indented hline hword (by simp) ?_ String.toList_ofList (by decide) (by decide)
    rw [Statement.ofLine?, hform]
    rfl
  | community k =>
    have hline : (conditionLine (ofCondition (.community k))).toList =
        " match ".toList ++ ("community ".toList ++ k.listName.toList) := by
      unfold conditionLine
      dsimp only [toString, ofCondition]
      simp
    have hform : Statement.condition? (" match ".toList ++
        ("community ".toList ++ k.listName.toList)) =
          some (.condition "community".toList k.listName.toList) := by
      have hvalue : Statement.keywordValue? ("community ".toList ++ k.listName.toList) =
          some ("community".toList, k.listName.toList) :=
        Statement.keywordValue?_append isWord_community k.isWord_listName.ne_nil
      rw [Statement.condition?, Statement.after?_append]
      change (none <|> Statement.keywordValue? _) >>= _ = _
      rw [hvalue]
      rfl
    refine Written.of_indented hline k.isWord_listName (by simp) ?_ String.toList_ofList (by decide)
      (by decide)
    rw [Statement.ofLine?, hform]
    rfl

theorem written_action {line : String} {keyword front word : List Char}
    (hline : line.toList = " set ".toList ++ ((keyword ++ ' ' :: front) ++ word))
    (hkeyword : Text.IsWord keyword) (hfront : '\n' ∉ front) (hword : Text.IsWord word) :
    Written line true (some (.action keyword (front ++ word))) := by
  have hform : Statement.action? (" set ".toList ++ ((keyword ++ ' ' :: front) ++ word)) =
      some (.action keyword (front ++ word)) := by
    rw [List.append_assoc, List.cons_append]
    exact Statement.action?_eq_some (Statement.after?_append " set " _)
      (Statement.keywordValue?_append hkeyword (by simp [hword.ne_nil]))
  have hnewline : '\n' ∉ keyword := hkeyword.notMem (by decide)
  refine Written.of_indented hline hword (by simp [hnewline, hfront]) ?_ String.toList_ofList
    (by decide) (by decide)
  rw [Statement.ofLine?, hform]
  rfl

theorem written_actionLine (a : SetAction) :
    Written (actionLine (ofAction a)) true
      (some (.action (ofAction a).1.toList (ofAction a).2.toList)) := by
  have hline : ∀ keyword value : String, (actionLine (keyword, value)).toList =
      " set ".toList ++ (keyword.toList ++ ' ' :: value.toList) := by
    intro keyword value
    unfold actionLine
    dsimp only [toString]
    simp
  cases a with
  | localPref n =>
    have hvalue : (toString n).toList = [] ++ Nat.toDigits 10 n := by simp [toString]
    dsimp only [ofAction]
    rw [hvalue]
    refine written_action ?_ (by decide) (by simp) (Text.isWord_toDigits n)
    rw [hline, hvalue]
    simp
  | community c additive =>
    have hnewline : '\n' ∉ c.text.toList := c.isWord_text.notMem (by decide)
    cases additive with
    | false =>
      have hvalue : c.text.toList = [] ++ c.text.toList := rfl
      dsimp only [ofAction]
      rw [hvalue]
      refine written_action ?_ isWord_community (by simp) c.isWord_text
      rw [hline]
      simp
    | true =>
      have hvalue : (c.text ++ " additive").toList = (c.text.toList ++ [' ']) ++ "additive".toList := by
        simp
      dsimp only [ofAction]
      rw [hvalue]
      refine written_action ?_ isWord_community (by simp [hnewline]) (by decide)
      rw [hline, hvalue]
      simp

end ClauseConfig

namespace PrefixList

theorem written_line {name : String} (hname : Text.IsWord name.toList) (seq : Nat) (a : Address) :
    Written s!"ip prefix-list {name} seq {seq} permit {a.text}" false
      (some (.prefixList name.toList a.text.toList)) := by
  have hline : (s!"ip prefix-list {name} seq {seq} permit {a.text}").toList =
      "ip prefix-list ".toList ++ ((name.toList ++ ' ' :: ("seq ".toList ++
        (Nat.toDigits 10 seq ++ ' ' :: "permit ".toList))) ++ a.text.toList) := by
    dsimp only [toString]
    simp
  have hform : Statement.prefixList? ("ip prefix-list ".toList ++
      ((name.toList ++ ' ' :: ("seq ".toList ++ (Nat.toDigits 10 seq ++ ' ' :: "permit ".toList))) ++
        a.text.toList)) = some (.prefixList name.toList a.text.toList) := by
    simp only [List.append_assoc, List.cons_append]
    exact Statement.prefixList?_eq_some (Statement.after?_append _ _)
      (Statement.word?_append hname _) (Statement.after?_append " seq " _)
      (Statement.word?_append (Text.isWord_toDigits seq) _) (Statement.digits?_toDigits seq)
      (Statement.after?_append " permit " _) (Statement.wholeWord?_eq_some a.isWord_text)
  have hnewline : '\n' ∉ name.toList := hname.notMem (by decide)
  have hdigits : '\n' ∉ Nat.toDigits 10 seq := (Text.isWord_toDigits seq).notMem (by decide)
  refine Written.of_unindented hline a.isWord_text (by simp [hnewline, hdigits]) ?_
    String.toList_ofList (by decide)
  rw [Statement.ofLine?, hform]
  rfl

end PrefixList

namespace BgpConfig

theorem written_opening (asn : Nat) :
    Written s!"router bgp {asn}" false (some (.bgp (Nat.toDigits 10 asn))) := by
  have hline : (s!"router bgp {asn}").toList = "router bgp ".toList ++ ([] ++ Nat.toDigits 10 asn) := by
    dsimp only [toString]
    simp
  have hform : Statement.bgp? ("router bgp ".toList ++ ([] ++ Nat.toDigits 10 asn)) =
      some (.bgp (Nat.toDigits 10 asn)) := by
    rw [Statement.bgp?, Statement.after?_append]
    simp [Statement.digits?_toDigits]
  refine Written.of_unindented hline (Text.isWord_toDigits asn) (by simp) ?_
    String.toList_ofList (by decide)
  rw [Statement.ofLine?, hform]
  rfl

theorem written_routerIdLine (ip : Ipv4) :
    Written (routerIdLine ip) true (some (.routerId ip.text.toList)) := by
  have hline : (routerIdLine ip).toList = " bgp router-id ".toList ++ ([] ++ ip.text.toList) := by
    unfold routerIdLine
    dsimp only [toString]
    simp
  have hform : Statement.routerId? (" bgp router-id ".toList ++ ([] ++ ip.text.toList)) =
      some (.routerId ip.text.toList) := by
    rw [Statement.routerId?, Statement.after?_append]
    simp [Statement.wholeWord?_eq_some ip.isWord_text]
  refine Written.of_indented hline ip.isWord_text (by simp) ?_ String.toList_ofList (by decide)
    (by decide)
  rw [Statement.ofLine?, hform]
  rfl

theorem written_networkLine (a : Address) :
    Written (networkLine a) true (some (.network a.ip.text.toList a.mask.text.toList)) := by
  have hline : (networkLine a).toList =
      " network ".toList ++ ((a.ip.text.toList ++ ' ' :: "mask ".toList) ++ a.mask.text.toList) := by
    unfold networkLine
    dsimp only [toString]
    simp
  have hform : Statement.network? (" network ".toList ++
      ((a.ip.text.toList ++ ' ' :: "mask ".toList) ++ a.mask.text.toList)) =
        some (.network a.ip.text.toList a.mask.text.toList) := by
    simp only [List.append_assoc, List.cons_append]
    exact Statement.network?_eq_some (Statement.after?_append _ _)
      (Statement.word?_append a.ip.isWord_text _) (Statement.after?_append " mask " _)
      (Statement.wholeWord?_eq_some a.mask.isWord_text)
  have hnewline : '\n' ∉ a.ip.text.toList := a.ip.isWord_text.notMem (by decide)
  refine Written.of_indented hline a.mask.isWord_text (by simp [hnewline]) ?_ String.toList_ofList
    (by decide) (by decide)
  rw [Statement.ofLine?, hform]
  rfl

end BgpConfig

namespace BgpNeighborConfig

/-- A line about a session is its address, a keyword and an argument that is trimmed. -/
theorem written_line {line : String} {cs word : List Char} (ip : Ipv4) (k : NeighborKeyword)
    (hline : line.toList =
      " neighbor ".toList ++ (ip.text.toList ++ ' ' :: (k.text.toList ++ (cs ++ word))))
    (hnewline : '\n' ∉ cs) (hword : Text.IsWord word) :
    Written line true (some (.neighbor ip.text.toList k (Text.trim (cs ++ word)))) := by
  have hsplit : " neighbor ".toList ++ (ip.text.toList ++ ' ' :: (k.text.toList ++ (cs ++ word))) =
      " neighbor ".toList ++ ((ip.text.toList ++ ' ' :: (k.text.toList ++ cs)) ++ word) := by simp
  have hip : '\n' ∉ ip.text.toList := ip.isWord_text.notMem (by decide)
  have hkeyword : '\n' ∉ k.text.toList := by cases k <;> decide
  refine Written.of_indented (hline.trans hsplit) hword (by simp [hip, hkeyword, hnewline]) ?_
    String.toList_ofList (by decide) (by decide)
  rw [← hsplit, Statement.ofLine?, Statement.neighbor?_append ip.isWord_text k]
  rfl

theorem written_sendCommunity (ip : Ipv4) :
    Written s!" neighbor {ip.text} send-community" true
      (some (.neighbor ip.text.toList .sendCommunity [])) := by
  have hline : (s!" neighbor {ip.text} send-community").toList =
      " neighbor ".toList ++ ((ip.text.toList ++ [' ']) ++ "send-community".toList) := by
    dsimp only [toString]
    simp
  have hsplit : (ip.text.toList ++ [' ']) ++ "send-community".toList =
      ip.text.toList ++ ' ' :: (NeighborKeyword.sendCommunity.text.toList ++ []) := by
    rw [List.append_assoc, List.append_nil]
    rfl
  have hip : '\n' ∉ ip.text.toList := ip.isWord_text.notMem (by decide)
  refine Written.of_indented hline (by decide) (by simp [hip]) ?_ String.toList_ofList
    (by decide) (by decide)
  rw [hsplit, Statement.ofLine?, Statement.neighbor?_append ip.isWord_text .sendCommunity []]
  rfl

theorem written_remoteAs (ip : Ipv4) (asn : Nat) :
    Written s!" neighbor {ip.text} remote-as {asn}" true
      (some (.neighbor ip.text.toList .remoteAs (Nat.toDigits 10 asn))) := by
  have hline : (s!" neighbor {ip.text} remote-as {asn}").toList = " neighbor ".toList ++
      (ip.text.toList ++ ' ' :: (NeighborKeyword.remoteAs.text.toList ++
        ([' '] ++ Nat.toDigits 10 asn))) := by
    dsimp only [toString, NeighborKeyword.text]
    simp
  have htrim : Text.trim ([' '] ++ Nat.toDigits 10 asn) = Nat.toDigits 10 asn :=
    (Text.trim_cons_of_isBlank (by decide) _).trans (Text.isWord_toDigits asn).trim_eq
  have h := written_line ip .remoteAs hline (by simp) (Text.isWord_toDigits asn)
  rwa [htrim] at h

theorem written_description (ip : Ipv4) {name : String} (hname : '\n' ∉ name.toList) :
    Written s!" neighbor {ip.text} description \"To {name}\"" true
      (some (.neighbor ip.text.toList .description ("\"To ".toList ++ name.toList ++ ['"']))) := by
  have hline : (s!" neighbor {ip.text} description \"To {name}\"").toList = " neighbor ".toList ++
      (ip.text.toList ++ ' ' :: (NeighborKeyword.description.text.toList ++
        ((' ' :: ("\"To ".toList ++ name.toList)) ++ ['"']))) := by
    dsimp only [toString, NeighborKeyword.text]
    simp
  have hquote : Text.IsWord ['"'] := by decide
  have htrim : Text.trim ((' ' :: ("\"To ".toList ++ name.toList)) ++ ['"']) =
      "\"To ".toList ++ name.toList ++ ['"'] := by
    rw [List.cons_append, Text.trim_cons_of_isBlank (by decide)]
    exact Text.trim_between (by decide) hquote ("To ".toList ++ name.toList)
  have h := written_line ip .description hline (by simp [hname]) hquote
  rwa [htrim] at h

theorem written_routeMap (ip : Ipv4) {name : String} {body : List Char}
    (hname : name.toList = "RMap_".toList ++ body) (hnewline : '\n' ∉ body) (d : Direction) :
    Written s!" neighbor {ip.text} route-map {name} {d.text}" true
      (some (.neighbor ip.text.toList .routeMap (name.toList ++ ' ' :: d.text.toList))) := by
  have hline : (s!" neighbor {ip.text} route-map {name} {d.text}").toList = " neighbor ".toList ++
      (ip.text.toList ++ ' ' :: (NeighborKeyword.routeMap.text.toList ++
        ((' ' :: (name.toList ++ [' '])) ++ d.text.toList))) := by
    dsimp only [toString, NeighborKeyword.text]
    simp
  have hword : Text.IsWord d.text.toList := by cases d <;> decide
  have htrim : Text.trim ((' ' :: (name.toList ++ [' '])) ++ d.text.toList) =
      name.toList ++ ' ' :: d.text.toList := by
    rw [List.cons_append, Text.trim_cons_of_isBlank (by decide), hname, List.append_assoc]
    have h := Text.trim_between (c := 'R') (by decide) hword ("Map_".toList ++ body ++ [' '])
    simpa using h
  have h := written_line ip .routeMap hline (by simp [hname, hnewline]) hword
  rwa [htrim] at h

end BgpNeighborConfig

end PathPolicy

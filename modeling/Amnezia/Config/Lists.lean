import Amnezia.Config.Parsed

/-!
# The lists of the `[Interface]` sections

The applications, DNS servers and search domains of a parsed configuration, in terms of the text:
the values after their keys in the `[Interface]` sections, cut at the commas.
-/

namespace Amnezia.Config

open Java (Text)

/-- The lines of the `[Interface]` sections among cleaned lines; `inside` says whether the first
line is in one. -/
def interfaceLines (inside : Bool) : List Text → List Text
  | [] => []
  | line :: lines =>
    if line = [] then interfaceLines inside lines
    else if line.head? = some '[' then
      interfaceLines (Java.equalsIgnoreCase "[Interface]".toList line) lines
    else if inside then line :: interfaceLines inside lines
    else interfaceLines inside lines

def lineValues (a : InterfaceAttribute) (line : Text) : List Text :=
  match Attribute.parse line with
  | none => []
  | some attr =>
    if InterfaceAttribute.ofKey (Java.toLowerCase attr.key) = some a then
      Attribute.split attr.value
    else []

def listValues (a : InterfaceAttribute) (text : Text) : List Text :=
  (interfaceLines false (cleanLines text)).flatMap (lineValues a)

section Lists

variable {Addr : Type} [DecidableEq Addr] {net : Net Addr}

def collect (v : Bool × List Text) (line : Text) : Bool × List Text :=
  if line = [] then v
  else if line.head? = some '[' then (Java.equalsIgnoreCase "[Interface]".toList line, v.2)
  else if v.1 then (v.1, v.2 ++ [line])
  else v

theorem foldl_collect (inside : Bool) (acc lines : List Text) :
    (lines.foldl collect (inside, acc)).2 = acc ++ interfaceLines inside lines := by
  induction lines generalizing inside acc with
  | nil => simp [interfaceLines]
  | cons line lines ih =>
    rw [List.foldl_cons, interfaceLines]
    by_cases hnil : line = []
    · rw [if_pos hnil, show collect (inside, acc) line = (inside, acc) from if_pos hnil, ih]
    by_cases hhead : line.head? = some '['
    · rw [if_neg hnil, if_pos hhead]
      have hcollect : collect (inside, acc) line =
          (Java.equalsIgnoreCase "[Interface]".toList line, acc) := by
        unfold collect
        rw [if_neg hnil, if_pos hhead]
      rw [hcollect, ih]
    · rw [if_neg hnil, if_neg hhead]
      have hcollect : collect (inside, acc) line =
          if inside then (inside, acc ++ [line]) else (inside, acc) := by
        unfold collect
        rw [if_neg hnil, if_neg hhead]
      cases inside with
      | true =>
        rw [hcollect]
        simp only [if_true]
        rw [ih]
        simp
      | false =>
        rw [hcollect]
        simp only [Bool.false_eq_true, if_false]
        exact ih false acc

theorem cleanedLine_collect {st st' : ParseState Addr} {line : Text}
    (h : st.cleanedLine net line = .ok st') :
    (st'.inInterfaceSection, st'.interfaceLines) =
      collect (st.inInterfaceSection, st.interfaceLines) line := by
  unfold collect
  rcases ParseState.cleanedLine_cases h with ⟨hnil, rfl⟩ | ⟨hnil, hhead, t, ht, h⟩ |
    ⟨hnil, hhead, hi, rfl⟩ | ⟨hnil, hhead, hi, -, rfl⟩
  · rw [if_pos hnil]
  · rw [if_neg hnil, if_pos hhead]
    have hlines : t.interfaceLines = st.interfaceLines := by
      rcases ParseState.consumePeer_cases ht with ⟨-, p, -, rfl⟩ | ⟨-, rfl⟩ <;> rfl
    rcases ParseState.header_cases h with ⟨hheader, rfl⟩ | ⟨hheader, -, rfl⟩
    · rw [hheader]
      exact congrArg (Prod.mk true) hlines
    · rw [hheader]
      exact congrArg (Prod.mk false) hlines
  · rw [if_neg hnil, if_neg hhead]
    simp only [hi, if_true]
  · rw [if_neg hnil, if_neg hhead]
    simp only [hi, Bool.false_eq_true, if_false]

theorem interface_of_parse {text : Text} {c : Config Addr} (h : parse net text = .ok c) :
    Interface.parse net (interfaceLines false (cleanLines text)) = .ok c.interfaze := by
  obtain ⟨st, st', hfold, hpeer, -, hi, -⟩ := parse_cases h
  have hview := Loops.foldlM_view (fun st => (st.inInterfaceSection, st.interfaceLines)) collect
    (fun _ _ _ => cleanedLine_collect) hfold
  have hlines : st'.interfaceLines = st.interfaceLines := by
    rcases ParseState.consumePeer_cases hpeer with ⟨-, p, -, rfl⟩ | ⟨-, rfl⟩ <;> rfl
  have hcollect := foldl_collect false [] (cleanLines text)
  rw [← hview, List.nil_append] at hcollect
  rw [← hcollect]
  exact hlines ▸ hi

variable (net) in
def addressesIn (values : List Text) : List Addr :=
  values.filterMap fun t => (InetAddresses.parse net t).toOption

variable (net) in
def namesIn (values : List Text) : List Text :=
  values.filter fun t => !(InetAddresses.parse net t).isOk

variable {b' b : InterfaceBuilder Addr}

namespace InterfaceBuilder

theorem parseDnsServer_lists {t : Text} (h : b.parseDnsServer net t = .ok b') :
    b'.dnsServers = b.dnsServers.insertAll (addressesIn net [t]) ∧
    b'.dnsSearchDomains = b.dnsSearchDomains.insertAll (namesIn net [t]) ∧
    b'.excludedApplications = b.excludedApplications ∧
    b'.includedApplications = b.includedApplications := by
  unfold parseDnsServer at h
  split at h
  · next a ha =>
    cases h
    simp [addressesIn, namesIn, ha, Except.toOption, Except.isOk, Except.toBool]
  · next e he =>
    split at h
    · cases h
    · cases h
      simp [addressesIn, namesIn, he, Except.toOption, Except.isOk, Except.toBool]

theorem parseDnsServers_lists {value : Text} (h : b.parseDnsServers net value = .ok b') :
    b'.dnsServers = b.dnsServers.insertAll (addressesIn net (Attribute.split value)) ∧
    b'.dnsSearchDomains = b.dnsSearchDomains.insertAll (namesIn net (Attribute.split value)) ∧
    b'.excludedApplications = b.excludedApplications ∧
    b'.includedApplications = b.includedApplications := by
  unfold parseDnsServers at h
  split at h
  · next b'' hfold =>
    cases h
    generalize Attribute.split value = ts at hfold
    induction ts generalizing b with
    | nil =>
      cases hfold
      exact ⟨rfl, rfl, rfl, rfl⟩
    | cons t ts ih =>
      obtain ⟨b₁, hstep, hrest⟩ := Loops.foldlM_cons_eq_ok.1 hfold
      obtain ⟨hs, hd, he, hi⟩ := parseDnsServer_lists hstep
      obtain ⟨hs', hd', he', hi'⟩ := ih hrest
      refine ⟨?_, ?_, he'.trans he, hi'.trans hi⟩
      · rw [hs', hs, ← LinkedSet.insertAll_append]
        unfold addressesIn
        rw [← List.filterMap_append]
        rfl
      · rw [hd', hd, ← LinkedSet.insertAll_append]
        unfold namesIn
        rw [← List.filter_append]
        rfl
  · cases h

theorem parseAttribute_lists {a : InterfaceAttribute} {value : Text}
    (h : b.parseAttribute net a value = .ok b') :
    b'.dnsServers = b.dnsServers.insertAll
      (addressesIn net (if a = .dns then Attribute.split value else [])) ∧
    b'.dnsSearchDomains = b.dnsSearchDomains.insertAll
      (namesIn net (if a = .dns then Attribute.split value else [])) ∧
    b'.excludedApplications = b.excludedApplications.insertAll
      (if a = .excludedApplications then Attribute.split value else []) ∧
    b'.includedApplications = b.includedApplications.insertAll
      (if a = .includedApplications then Attribute.split value else []) := by
  cases a with
  | address =>
    simp only [parseAttribute, parseAddresses] at h
    split at h
    · cases h
      exact ⟨rfl, rfl, rfl, rfl⟩
    · cases h
  | dns => exact parseDnsServers_lists h
  | excludedApplications =>
    cases h
    exact ⟨rfl, rfl, rfl, rfl⟩
  | includedApplications =>
    cases h
    exact ⟨rfl, rfl, rfl, rfl⟩
  | privateKey =>
    simp only [parseAttribute, parsePrivateKey] at h
    split at h
    · cases h
      exact ⟨rfl, rfl, rfl, rfl⟩
    · cases h
  | number a =>
    rw [parseAttribute_number] at h
    unfold parseNumber setNumber at h
    split at h
    · split at h
      · cases h
      · cases h
        exact ⟨rfl, rfl, rfl, rfl⟩
    · cases h
  | text a =>
    rw [parseAttribute_text] at h
    cases h
    exact ⟨rfl, rfl, rfl, rfl⟩

theorem parseLine_lists {line : Text} (h : b.parseLine net line = .ok b') :
    b'.dnsServers = b.dnsServers.insertAll (addressesIn net (lineValues .dns line)) ∧
    b'.dnsSearchDomains = b.dnsSearchDomains.insertAll (namesIn net (lineValues .dns line)) ∧
    b'.excludedApplications =
      b.excludedApplications.insertAll (lineValues .excludedApplications line) ∧
    b'.includedApplications =
      b.includedApplications.insertAll (lineValues .includedApplications line) := by
  obtain ⟨attr, a, hattr, ha, h⟩ := parseLine_cases h
  have hvalues : ∀ a', lineValues a' line = if a = a' then Attribute.split attr.value else [] := by
    intro a'
    unfold lineValues
    rw [hattr]
    simp only [ha, Option.some.injEq]
  rw [hvalues, hvalues, hvalues]
  exact parseAttribute_lists h

end InterfaceBuilder

theorem insertAll_of_foldlM {α : Type} [DecidableEq α] {lines : List Text}
    (view : InterfaceBuilder Addr → LinkedSet α) (values : Text → List α)
    (hstep : ∀ t line t', t.parseLine net line = .ok t' →
      view t' = (view t).insertAll (values line))
    (h : lines.foldlM (InterfaceBuilder.parseLine net) b = .ok b') :
    view b' = (view b).insertAll (lines.flatMap values) := by
  rw [← LinkedSet.foldl_insertAll]
  exact Loops.foldlM_view view (fun set line => set.insertAll (values line)) hstep h

theorem Interface.lists_of_parse {lines : List Text} {i : Interface Addr}
    (h : Interface.parse net lines = .ok i) :
    i.dnsServers = .insertAll .empty (addressesIn net (lines.flatMap (lineValues .dns))) ∧
    i.dnsSearchDomains = .insertAll .empty (namesIn net (lines.flatMap (lineValues .dns))) ∧
    i.excludedApplications =
      .insertAll .empty (lines.flatMap (lineValues .excludedApplications)) ∧
    i.includedApplications =
      .insertAll .empty (lines.flatMap (lineValues .includedApplications)) := by
  obtain ⟨b, hfold, hbuild⟩ := Loops.bind_eq_ok.1 h
  obtain ⟨-, -, hs, hd, he, hi, -⟩ := InterfaceBuilder.build_cases hbuild
  rw [← hs, ← hd, ← he, ← hi]
  have hserv := insertAll_of_foldlM InterfaceBuilder.dnsServers
    (fun line => addressesIn net (lineValues .dns line))
    (fun _ _ _ h => (InterfaceBuilder.parseLine_lists h).1) hfold
  have hdom := insertAll_of_foldlM InterfaceBuilder.dnsSearchDomains
    (fun line => namesIn net (lineValues .dns line))
    (fun _ _ _ h => (InterfaceBuilder.parseLine_lists h).2.1) hfold
  have hexc := insertAll_of_foldlM InterfaceBuilder.excludedApplications _
    (fun _ _ _ h => (InterfaceBuilder.parseLine_lists h).2.2.1) hfold
  have hinc := insertAll_of_foldlM InterfaceBuilder.includedApplications _
    (fun _ _ _ h => (InterfaceBuilder.parseLine_lists h).2.2.2) hfold
  refine ⟨?_, ?_, hexc, hinc⟩
  · rw [hserv]
    unfold addressesIn
    rw [List.filterMap_flatMap]
    rfl
  · rw [hdom]
    unfold namesIn
    rw [List.filter_flatMap]
    rfl

end Lists

end Amnezia.Config

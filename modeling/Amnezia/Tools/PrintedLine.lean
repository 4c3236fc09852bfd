import Amnezia.Config.Document
import Amnezia.Tools.AwgQuick
import Amnezia.Tools.Config

/-!
# Printed lines, as the command line tools see them

What `parse_options` and `config_read_line` make of one line of `toAwgQuickString`.
-/

namespace Amnezia.Tools

open Config Config.Attribute Libc
open Java (Text)

def fileLine (l : Text) : Bytes := utf8 l ++ ['\n']

def squeeze (t : Text) : Bytes := utf8 (t.filter (!Java.space ·))

def squeezeAll (ts : List Text) : Bytes := [','].intercalate (ts.map squeeze)

theorem fileLine_eq (l : Text) : fileLine l = utf8 (l ++ ['\n']) := by
  rw [utf8_append]
  rfl

theorem utf8_intercalate (ts : List Text) :
    utf8 ([','].intercalate ts) = [','].intercalate (ts.map utf8) :=
  Fields.apply_intercalate utf8_nil utf8_append [','] ts

theorem filter_join (ts : List Text) : (join ts).filter (!Java.space ·) =
    [','].intercalate (ts.map (·.filter (!Java.space ·))) :=
  Fields.apply_intercalate List.filter_nil (fun _ _ => List.filter_append ..) [',', ' '] ts

theorem utf8_filter_join (ts : List Text) :
    utf8 ((join ts).filter (!Java.space ·)) = squeezeAll ts := by
  rw [filter_join, utf8_intercalate, List.map_map]
  rfl

section Key

variable {key : Text} (hword : ∀ c ∈ key, Java.word c = true)

include hword

theorem equals_notMem : '=' ∉ key := by
  intro h
  exact absurd (hword _ h) (by decide)

theorem utf8_key : utf8 key = key := utf8_of_ascii fun c hc => (Java.lt_of_word (hword c hc)).2

theorem filter_key : key.filter (!Java.space ·) = key := by
  rw [List.filter_eq_self]
  intro c hc
  rw [Bool.not_eq_true']
  apply eq_false_of_ne_true
  intro hspace
  have htrim := Java.trimmable_iff.1 (Java.trimmable_of_space hspace)
  have hlow := (Java.lt_of_word (hword c hc)).1
  omega

theorem filter_fileLine (ts : List Text) :
    (fileLine (line key (join ts))).filter (!isspace ·) =
      key ++ '=' :: squeezeAll ts := by
  rw [fileLine_eq, filter_utf8, ← utf8_filter_join]
  unfold line
  rw [List.filter_append, List.filter_append, filter_key hword]
  show utf8 (key ++ '=' :: (join ts).filter (!Java.space ·) ++ []) = _
  rw [List.append_nil, utf8_append, utf8_key hword]
  rfl

end Key

def ListOption.attribute : ListOption → InterfaceAttribute
  | .addrs => .address
  | .dnses => .dns
  | .excludedApplications => .excludedApplications
  | .includedApplications => .includedApplications

/-- What happens to the line of an attribute that is taken out of the configuration. -/
def quickAction : InterfaceAttribute → Option OptionAction
  | .address => some (.list .addrs)
  | .dns => some (.list .dnses)
  | .excludedApplications => some (.list .excludedApplications)
  | .includedApplications => some (.list .includedApplications)
  | .number .mtu => some .mtu
  | _ => none

theorem optionOf_key {key : Bytes} (hkey : '=' ∉ key) (w : Bytes) : optionOf (key ++ '=' :: w) =
    (optionKeys.filter fun k => sameNoCase key k.key.toList).findSome? fun k =>
      if k.bound < key.length + (w.length + 1) then some (k.action, w) else none := by
  have hnames : ∀ k ∈ optionKeys, '=' ∉ k.key.toList := by decide
  unfold optionOf
  apply Loops.findSome?_filter
  intro k hk
  rw [startsNoCase_key hkey (hnames k hk)]
  cases h : sameNoCase key k.key.toList with
  | false => rfl
  | true =>
    rw [drop_key h, List.length_append, List.length_cons, Bool.true_and]
    simp only [decide_eq_true_iff, if_true]

variable {a : InterfaceAttribute}

theorem optionOf_taken {act : OptionAction} (h : quickAction a = some act) {w : Bytes}
    (hw : w = [] → a = .excludedApplications ∨ a = .includedApplications) :
    optionOf (a.key ++ '=' :: w) = some (act, w) := by
  have hlength : a = .excludedApplications ∨ a = .includedApplications ∨ 0 < w.length := by
    by_cases hnil : w = []
    · rcases hw hnil with h | h
      · exact .inl h
      · exact .inr (.inl h)
    · exact .inr (.inr (List.length_pos_of_ne_nil hnil))
  -- the branch is the only one with the key, and the line is longer than its bound
  have hbranch : ∀ k : OptionKey, k.action = act →
      (optionKeys.filter fun k => sameNoCase a.key k.key.toList) = [k] →
      k.bound < a.key.length + (w.length + 1) → optionOf (a.key ++ '=' :: w) = some (act, w) := by
    rintro k rfl hfilter hbound
    rw [optionOf_key (equals_notMem a.key_word), hfilter, List.findSome?_singleton, if_pos hbound]
  cases a with
  | address =>
    cases h
    refine hbranch ⟨"Address", 8, .list .addrs⟩ rfl (by decide) ?_
    show 8 < 7 + (w.length + 1)
    rcases hlength with h | h | h
    · cases h
    · cases h
    · omega
  | dns =>
    cases h
    refine hbranch ⟨"DNS", 4, .list .dnses⟩ rfl (by decide) ?_
    show 4 < 3 + (w.length + 1)
    rcases hlength with h | h | h
    · cases h
    · cases h
    · omega
  | excludedApplications =>
    cases h
    refine hbranch ⟨"ExcludedApplications", 4, .list .excludedApplications⟩ rfl (by decide) ?_
    show 4 < 20 + (w.length + 1)
    omega
  | includedApplications =>
    cases h
    refine hbranch ⟨"IncludedApplications", 4, .list .includedApplications⟩ rfl (by decide) ?_
    show 4 < 20 + (w.length + 1)
    omega
  | number a =>
    cases a with
    | mtu =>
      cases h
      refine hbranch ⟨"MTU", 4, .mtu⟩ rfl (by decide) ?_
      show 4 < 3 + (w.length + 1)
      rcases hlength with h | h | h
      · cases h
      · cases h
      · omega
    | _ => cases h
  | text a => cases h
  | privateKey => cases h

theorem optionOf_left (h : quickAction a = none) (w : Bytes) :
    ∀ r, optionOf (a.key ++ '=' :: w) = some r → r.1 = .awg := by
  have hawg : ∀ k ∈ optionKeys, sameNoCase a.key k.key.toList = true → k.action = .awg := by
    cases a with
    | number a => cases a <;> first | decide | cases h
    | text a => cases a <;> decide
    | privateKey => decide
    | _ => cases h
  intro r hr
  rw [optionOf_key (equals_notMem a.key_word)] at hr
  obtain ⟨k, hk, hsome⟩ := List.exists_of_findSome?_eq_some hr
  rw [List.mem_filter] at hk
  split at hsome
  · cases hsome
    exact hawg k hk.1 hk.2
  · cases hsome

namespace Options

theorem sectionAfter_key {key : Text} (hkey : key ≠ []) (hword : ∀ c ∈ key, Java.word c = true)
    (inside : Bool) (w : Bytes) : sectionAfter inside (key ++ '=' :: w) = inside := by
  obtain ⟨c, cs, rfl⟩ := List.exists_cons_of_ne_nil hkey
  have hc : ((c :: cs ++ '=' :: w).head? != some '[') = true := by
    rw [bne_iff_ne]
    intro h
    have hc : c = '[' := by simpa using h
    exact absurd (hc ▸ hword c (by simp)) (by decide)
  unfold sectionAfter
  rw [sameNoCase_of_notMem (by simp) (by decide), hc, Bool.and_true, Bool.false_or]

structure AfterAttribute (o o' : Options) (a : InterfaceAttribute) (ts : List Text) : Prop where
  inside : o'.inInterfaceSection = true
  config : o'.config = if quickAction a = none then
    concatAndFree o.config [] (fileLine (line a.key (join ts)))
    else o.config
  list : ∀ l, o'.list l = if l.attribute = a then
    concatAndFree (o.list l) [','] (squeezeAll ts) else o.list l
  mtu : o'.mtu = if a = .number .mtu then (atoi (squeezeAll ts)).toNat else o.mtu

variable {o : Options}

theorem readLine_attribute (ho : o.inInterfaceSection = true) {ts : List Text}
    (hts : squeezeAll ts = [] → a = .excludedApplications ∨ a = .includedApplications) :
    AfterAttribute o
      (o.readLine (fileLine (line a.key (join ts)))) a ts := by
  have hsect := (sectionAfter_key a.key_ne_nil a.key_word o.inInterfaceSection (squeezeAll ts)).trans ho
  unfold readLine
  rw [filter_fileLine a.key_word]
  simp only [hsect, if_true]
  cases hact : quickAction a with
  | none =>
    have hlist : ∀ l : ListOption, l.attribute ≠ a := by
      rintro l rfl
      cases l <;> cases hact
    have hmtu : a ≠ .number .mtu := by
      rintro rfl
      cases hact
    cases hopt : optionOf (a.key ++ '=' :: squeezeAll ts) with
    | none =>
      exact ⟨rfl, by rw [if_pos hact]; rfl, fun l => by rw [if_neg (hlist l)]; rfl,
        by rw [if_neg hmtu]; rfl⟩
    | some r =>
      obtain ⟨act, w⟩ := r
      cases optionOf_left hact _ _ hopt
      exact ⟨rfl, by rw [if_pos hact]; rfl, fun l => by rw [if_neg (hlist l)]; rfl,
        by rw [if_neg hmtu]; rfl⟩
  | some act =>
    rw [optionOf_taken hact hts]
    have hconfig : o.config = if quickAction a = none then concatAndFree o.config []
        (fileLine (line a.key (join ts))) else o.config := by
      rw [if_neg (by rw [hact]; simp)]
    cases act with
    | list l =>
      have hl : l.attribute = a := by
        cases a with
        | number a => cases a <;> cases hact
        | text a => cases hact
        | privateKey => cases hact
        | _ =>
          cases hact
          rfl
      have hmtu : a ≠ .number .mtu := by
        rintro rfl
        cases hact
      refine ⟨rfl, hconfig, ?_, by rw [if_neg hmtu]⟩
      intro l'
      by_cases hll : l' = l
      · subst hll
        rw [if_pos hl]
        exact Function.update_self ..
      · rw [if_neg]
        · exact Function.update_of_ne hll ..
        · rintro rfl
          cases l <;> cases l' <;> first | exact hll rfl | cases hl
    | mtu =>
      have ha : a = .number .mtu := by
        cases a with
        | number a => cases a <;> first | rfl | cases hact
        | _ => cases hact
      subst ha
      refine ⟨rfl, hconfig, ?_, rfl⟩
      intro l
      rw [if_neg (by cases l <;> decide)]
    | awg =>
      cases a with
      | number a => cases a <;> cases hact
      | _ => cases hact

theorem readLine_outside {line : Bytes}
    (h : sectionAfter o.inInterfaceSection (line.filter (!isspace ·)) = false) :
    o.readLine line = { o with inInterfaceSection := false }.addLine line := by
  unfold readLine
  simp only [h, Bool.false_eq_true, if_false]

theorem readLine_interfaceHeader (o : Options) :
    o.readLine (fileLine "[Interface]".toList) =
      { o with inInterfaceSection := true }.addLine (fileLine "[Interface]".toList) := rfl

theorem readLine_peerHeader (o : Options) :
    o.readLine (fileLine "[Peer]".toList) =
      { o with inInterfaceSection := false }.addLine (fileLine "[Peer]".toList) := by
  have hclean : (fileLine "[Peer]".toList).filter (!isspace ·) = "[Peer]".toList := by decide
  have hother : sameNoCase "[Peer]".toList "[Interface]".toList = false := by decide
  have hhead : ("[Peer]".toList.head? != some '[') = false := by decide
  apply readLine_outside
  unfold sectionAfter
  rw [hclean, hother, hhead, Bool.and_false]
  rfl

theorem readLine_blank (o : Options) : o.readLine (fileLine []) = o.addLine (fileLine []) := by
  have hclean : (fileLine []).filter (!isspace ·) = [] := by decide
  have hopt : optionOf [] = none := by decide
  have hsect : sectionAfter o.inInterfaceSection [] = o.inInterfaceSection := by
    unfold sectionAfter
    rw [show sameNoCase [] "[Interface]".toList = false by decide]
    simp
  unfold readLine
  simp only [hclean, hopt, hsect, ite_self]

theorem readLine_peerAttribute (ho : o.inInterfaceSection = false) (a : PeerAttribute)
    (ts : List Text) :
    o.readLine (fileLine (line a.key (join ts))) =
      { o with inInterfaceSection := false }.addLine
        (fileLine (line a.key (join ts))) := by
  apply readLine_outside
  rw [filter_fileLine a.key_word, sectionAfter_key a.key_ne_nil a.key_word, ho]

end Options

end Amnezia.Tools

import Amnezia.Lib.Fields
import Amnezia.Libc.Strings

/-!
# The DNS servers of a network

`set_dnses` of awg-quick, up to the lists that it hands on.  Its buffers are sized by the length of
the text alone: every token pays for its quotes with the separator next to it.
-/

namespace Amnezia.Tools

open Libc (Bytes)

/-- The tokens of `strtok(…, ", \t\n")`. -/
def dnsTokens (dnses : Bytes) : List Bytes :=
  (dnses.splitOnP [',', ' ', '\t', '\n'].contains).filter (· ≠ [])

/-- `(^[0-9.]+$)|(^.*:.*$)`. -/
def looksLikeIp (dns : Bytes) : Bool :=
  (dns != [] && dns.all fun c => c.isDigit || c == '.') || dns.contains ':'

def isQuotable (dns : Bytes) : Bool := !(dns.contains '\'' || dns.contains '\\')

/-- `snprintf` with this size into a buffer of `cap` bytes; `none` is a write behind it. -/
def snprintf (cap size : Nat) (text : Bytes) : Option Bytes :=
  if (text.take (size - 1)).length < cap then some (text.take (size - 1)) else none

/-- `strncat` into a buffer of `cap` bytes. -/
def strncat (cap : Nat) (dest src : Bytes) (n : Nat) : Option Bytes :=
  if (dest ++ src.take n).length < cap then some (dest ++ src.take n) else none

/-- The lists of the addresses, or those of the search domains. -/
structure DnsLists where
  list : List Bytes := []
  shellArglist : Bytes := []
  functionArglist : Bytes := []

def quoted (dns : Bytes) : Bytes := '\'' :: dns ++ ['\'', ' ']

/-- One round of the second loop; `size` entries were counted. -/
def addDns (len size : Nat) (l : DnsLists) (dns : Bytes) : Option DnsLists := do
  let arg ← snprintf (len + 4) (len + 3) (quoted dns)
  let shell ← strncat (len * 4 + 1) l.shellArglist arg (len * 4 - 1)
  let arg ← snprintf (len + 4) (len + 2) (if l.functionArglist = [] then dns else ", ".toList ++ dns)
  let function ← strncat (len * 4 + 1) l.functionArglist arg (len * 4 - 1)
  if l.list.length < size then some ⟨l.list ++ [dns], shell, function⟩ else none

def fillDns (len : Nat) (sizes : Bool → Nat) (lists : Bool → DnsLists) (dns : Bytes) :
    Option (Bool → DnsLists) :=
  if isQuotable dns then
    (addDns len (sizes (looksLikeIp dns)) (lists (looksLikeIp dns)) dns).map
      (Function.update lists (looksLikeIp dns))
  else some lists

/-- The lists by `is_ip`, where they are made. -/
def setDnses (dnses : Bytes) : Option (Option (Bool → DnsLists)) :=
  let len := dnses.length
  let sizes ip := (dnsTokens dnses).countP fun dns => isQuotable dns && looksLikeIp dns == ip
  if 65536 < len ∨ len = 0 ∨ sizes true = 0 then some none
  else ((dnsTokens dnses).foldlM (fillDns len sizes) fun _ => {}).map some

def weight : List Bytes → Nat
  | [] => 0
  | t :: ts => t.length + 1 + weight ts

theorem weight_append (ts us : List Bytes) : weight (ts ++ us) = weight ts + weight us := by
  induction ts with
  | nil => exact (Nat.zero_add _).symm
  | cons t ts ih =>
    rw [List.cons_append, weight, weight, ih]
    omega

theorem weight_sublist {ts us : List Bytes} (h : List.Sublist ts us) : weight ts ≤ weight us := by
  induction h with
  | slnil => exact Nat.le_refl _
  | cons u _ ih =>
    rw [weight]
    omega
  | cons_cons t _ ih =>
    rw [weight, weight]
    omega

theorem weight_splitOnP (p : Char → Bool) (text : Bytes) :
    weight (text.splitOnP p) = text.length + 1 := by
  induction text with
  | nil => rfl
  | cons c text ih =>
    rw [List.splitOnP_cons_eq_if_modifyHead]
    split
    · rw [weight, ih, List.length_nil, List.length_cons]
      omega
    · obtain ⟨t, ts, hts⟩ := List.exists_cons_of_ne_nil (List.splitOnP_ne_nil p text)
      rw [hts, weight] at ih
      rw [hts, List.modifyHead_cons, weight, List.length_cons, List.length_cons]
      omega

/-- What is made of some tokens: only a token that is the whole text loses the blank behind it. -/
def dnsLists (len : Nat) (ts : List Bytes) : DnsLists where
  list := ts
  shellArglist := ts.flatMap fun dns => (quoted dns).take (len + 2)
  functionArglist := ", ".toList.intercalate ts

variable {len : Nat} {ts : List Bytes}

theorem length_shellArglist (h : ∀ t ∈ ts, t ≠ []) :
    (dnsLists len ts).shellArglist.length ≤ 2 * weight ts := by
  show (ts.flatMap _).length ≤ _
  induction ts with
  | nil => exact Nat.zero_le _
  | cons t ts ih =>
    rw [List.forall_mem_cons] at h
    have ht := List.length_pos_of_ne_nil h.1
    have hrest := ih h.2
    have hquoted : (quoted t).length = t.length + 3 := by simp [quoted]
    rw [List.flatMap_cons, List.length_append, List.length_take, weight, hquoted]
    omega

theorem length_functionArglist (ts : List Bytes) :
    (dnsLists len ts).functionArglist.length ≤ 2 * weight ts := by
  show (List.intercalate _ ts).length ≤ _
  induction ts with
  | nil => exact Nat.zero_le _
  | cons t ts ih =>
    cases ts with
    | nil =>
      rw [List.intercalate_singleton, weight]
      omega
    | cons u ts =>
      have hlength : ", ".toList.length = 2 := rfl
      rw [weight, List.intercalate_cons_cons, List.length_append, List.length_append, hlength]
      omega

theorem addDns_dnsLists {size : Nat} {dns : Bytes} (hts : ∀ t ∈ ts ++ [dns], t ≠ [])
    (hlen : 1 ≤ len) (hweight : weight (ts ++ [dns]) ≤ len + 1) (hsize : ts.length < size) :
    addDns len size (dnsLists len ts) dns = some (dnsLists len (ts ++ [dns])) := by
  have hshell : (dnsLists len (ts ++ [dns])).shellArglist =
      (dnsLists len ts).shellArglist ++ (quoted dns).take (len + 2) := by
    simp [dnsLists]
  have hshellLength := @length_shellArglist len _ hts
  have hfunctionLength := @length_functionArglist len (ts ++ [dns])
  have hdns : dns.length ≤ len := by
    rw [weight_append, weight, weight] at hweight
    omega
  have harg : ((quoted dns).take (len + 2)).length ≤ len + 2 := List.length_take_le _ _
  unfold addDns snprintf strncat
  rw [show len + 3 - 1 = len + 2 from rfl, if_pos (by omega)]
  simp only [Option.bind_eq_bind, Option.bind_some]
  rw [List.take_of_length_le (show _ ≤ len * 4 - 1 by omega), ← hshell, if_pos (by omega)]
  simp only [Option.bind_some]
  -- the text in front of the token is there for every token but the first
  have hfunction : ∃ arg : Bytes, (if (dnsLists len ts).functionArglist = [] then dns
        else ", ".toList ++ dns) = arg ∧ arg.length ≤ len + 1 ∧
      (dnsLists len (ts ++ [dns])).functionArglist = (dnsLists len ts).functionArglist ++ arg := by
    refine ⟨_, rfl, ?_⟩
    cases ts with
    | nil => exact ⟨by show dns.length ≤ _; omega, by simp [dnsLists]⟩
    | cons t ts =>
      have hne : (dnsLists len (t :: ts)).functionArglist ≠ [] := by
        obtain ⟨c, t, rfl⟩ := List.exists_cons_of_ne_nil (hts t (by simp))
        simp [dnsLists]
      have ht := List.length_pos_of_ne_nil (hts t (by simp))
      rw [weight_append, weight, weight, weight] at hweight
      rw [if_neg hne]
      constructor
      · show dns.length + 1 + 1 ≤ _
        omega
      · show List.intercalate _ _ = _
        rw [Fields.intercalate_concat _ (List.cons_ne_nil t ts), List.append_assoc]
        rfl
  obtain ⟨arg, harg', hargLength, hfunction⟩ := hfunction
  rw [harg', List.take_of_length_le (show _ ≤ len + 2 - 1 by omega), if_pos (by omega)]
  simp only [Option.bind_some]
  rw [List.take_of_length_le (show _ ≤ len * 4 - 1 by omega), ← hfunction, if_pos (by omega)]
  exact if_pos hsize

def dnsOf (ip : Bool) (tokens : List Bytes) : List Bytes :=
  tokens.filter fun dns => isQuotable dns && looksLikeIp dns == ip

theorem fillDns_dnsLists {tokens done rest : List Bytes} {dns : Bytes}
    (htokens : tokens = done ++ dns :: rest) (hne : ∀ t ∈ tokens, t ≠ []) (hlen : 1 ≤ len)
    (hweight : weight tokens ≤ len + 1) :
    fillDns len (fun ip => (dnsOf ip tokens).length) (fun ip => dnsLists len (dnsOf ip done)) dns =
      some fun ip => dnsLists len (dnsOf ip (done ++ [dns])) := by
  have hother : ∀ ip, (isQuotable dns && looksLikeIp dns == ip) = false →
      dnsOf ip (done ++ [dns]) = dnsOf ip done := by
    intro ip hip
    unfold dnsOf
    rw [List.filter_append, List.filter_cons_of_neg (by simp [hip]), List.filter_nil, List.append_nil]
  unfold fillDns
  split
  · next hquotable =>
    have hself : dnsOf (looksLikeIp dns) (done ++ [dns]) = dnsOf (looksLikeIp dns) done ++ [dns] := by
      unfold dnsOf
      rw [List.filter_append, List.filter_cons_of_pos (by simp [hquotable]), List.filter_nil]
    have hsub : List.Sublist (dnsOf (looksLikeIp dns) done ++ [dns])
        (dnsOf (looksLikeIp dns) tokens) := by
      rw [← hself, htokens, List.append_cons done dns rest]
      exact (List.sublist_append_left _ _).filter _
    have hall : List.Sublist (dnsOf (looksLikeIp dns) tokens) tokens := List.filter_sublist
    have hcount := hsub.length_le
    rw [List.length_append, List.length_singleton] at hcount
    rw [addDns_dnsLists (fun t ht => hne t ((hsub.trans hall).subset ht)) hlen
      ((weight_sublist (hsub.trans hall)).trans hweight) hcount, Option.map_some, ← hself]
    congr 1
    funext ip
    by_cases hip : ip = looksLikeIp dns
    · rw [hip, Function.update_self]
    · rw [Function.update_of_ne hip, hother ip (by simp [Ne.symm hip])]
  · next hquotable =>
    congr 1
    funext ip
    rw [hother ip (by simp [hquotable])]

/-- Both lists have the tokens of their kind in their order, nothing is written outside of a buffer,
and every string that is put together has its tokens whole. -/
theorem setDnses_lists {dnses : Bytes} (hlen : 1 ≤ dnses.length ∧ dnses.length ≤ 65536)
    (hip : dnsOf true (dnsTokens dnses) ≠ []) :
    ∃ lists, setDnses dnses = some (some lists) ∧ ∀ ip,
      (lists ip).list = dnsOf ip (dnsTokens dnses) ∧
      (lists ip).shellArglist =
        (dnsOf ip (dnsTokens dnses)).flatMap (fun dns => (quoted dns).take (dnses.length + 2)) ∧
      (lists ip).functionArglist = ", ".toList.intercalate (dnsOf ip (dnsTokens dnses)) ∧
      ∀ dns ∈ dnsOf ip (dnsTokens dnses),
        '\'' :: dns ++ ['\''] <+: (quoted dns).take (dnses.length + 2) := by
  have hne : ∀ t ∈ dnsTokens dnses, t ≠ [] := fun t ht => by simpa using (List.mem_filter.1 ht).2
  have hweight : weight (dnsTokens dnses) ≤ dnses.length + 1 :=
    (weight_sublist List.filter_sublist).trans (Nat.le_of_eq (weight_splitOnP _ _))
  have hsizes : ∀ ip, ((dnsTokens dnses).countP fun dns => isQuotable dns && looksLikeIp dns == ip) =
      (dnsOf ip (dnsTokens dnses)).length := fun ip => List.countP_eq_length_filter
  have hrun : ∀ done rest, dnsTokens dnses = done ++ rest →
      rest.foldlM (fillDns dnses.length fun ip => (dnsOf ip (dnsTokens dnses)).length)
        (fun ip => dnsLists dnses.length (dnsOf ip done)) =
          some fun ip => dnsLists dnses.length (dnsOf ip (dnsTokens dnses)) := by
    intro done rest htokens
    induction rest generalizing done with
    | nil =>
      rw [List.append_nil] at htokens
      rw [htokens]
      rfl
    | cons dns rest ih =>
      rw [List.foldlM_cons, fillDns_dnsLists htokens hne hlen.1 hweight]
      exact ih (done ++ [dns]) (by rw [htokens, List.append_assoc]; rfl)
  refine ⟨fun ip => dnsLists dnses.length (dnsOf ip (dnsTokens dnses)), ?_,
    fun ip => ⟨rfl, rfl, rfl, ?_⟩⟩
  · unfold setDnses
    simp only [hsizes]
    have hcount := List.length_pos_of_ne_nil hip
    rw [if_neg (by omega)]
    exact congrArg (Option.map some) (hrun [] (dnsTokens dnses) rfl)
  · intro dns hdns
    have htoken := weight_sublist (List.singleton_sublist.2 (List.mem_filter.1 hdns).1)
    rw [weight, weight] at htoken
    have hquoted : quoted dns = ('\'' :: dns ++ ['\'']) ++ [' '] := by simp [quoted]
    refine List.prefix_take_iff.2 ⟨hquoted ▸ List.prefix_append _ _, ?_⟩
    rw [List.length_append, List.length_cons, List.length_singleton]
    omega

theorem setDnses_two : ∃ lists, setDnses "1.1.1.1, lan".toList = some (some lists) ∧
    (lists true).list = ["1.1.1.1".toList] ∧ (lists false).list = ["lan".toList] := by
  obtain ⟨lists, heq, hlists⟩ := @setDnses_lists "1.1.1.1, lan".toList (by decide) (by decide)
  exact ⟨lists, heq, (hlists true).1, (hlists false).1⟩

end Amnezia.Tools

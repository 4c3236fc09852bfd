import Amnezia.Viewmodel.PrivateIpsRuns

/-!
# Undoing the exclusion

Turning it off does not remember what was there: the public networks and the routes are found again
by their texts.  A text changes when it is joined and cut: blanks after the last entry are lost when
a route is put behind it, an empty last entry is dropped, and a route loses the blanks in front.
-/

namespace Amnezia.Viewmodel

open Config.Attribute LinkedSet
open Java (Text)
open Config (Attribute.join Attribute.split)

namespace PeerProxy

def Ended (t : Text) : Prop := ∀ c ∈ t.getLast?, Java.space c = false

theorem ended_iff {t : Text} : Ended t ↔ t.rdropWhile Java.space = t := by
  constructor
  · exact fun h => Fields.rdropWhile_of_last h
  · intro h
    rw [← h]
    exact Fields.last_rdropWhile _ t

theorem ended_of_last {ts : List Text} (htight : Fields.Tight Java.space ts)
    (hlast : ∀ z ∈ ts.getLast?, Ended z) : ∀ t ∈ ts, Ended t := by
  rcases List.eq_nil_or_concat ts with rfl | ⟨init, z, rfl⟩
  · simp
  rw [List.concat_eq_append] at htight hlast ⊢
  intro t ht
  rcases List.mem_append.1 ht with ht | ht
  · exact ((List.pairwise_append.1 htight).2.2 t ht z List.mem_cons_self).1
  · rw [List.mem_singleton.1 ht]
    exact hlast z (by simp)

/-- Entries around `0.0.0.0/0` that are cut from their text as they are. -/
structure Listing where
  before : List Text
  after : List Text
  nodup : (before ++ wildcardNetwork :: after).Nodup
  comma : ∀ t ∈ before ++ wildcardNetwork :: after, ',' ∉ t
  tight : Fields.Tight Java.space (before ++ wildcardNetwork :: after)
  last : ∀ t ∈ (before ++ wildcardNetwork :: after).getLast?, t ≠ []
  noPublic : ∀ t ∈ before ++ wildcardNetwork :: after, t ∉ ipv4PublicNetworks

namespace Listing

variable (e : Listing)

def entries : List Text := e.before ++ wildcardNetwork :: e.after

def widened : List Text := e.before ++ ipv4PublicNetworks ++ e.after

structure Free (r : Text) : Prop extends Route r where
  notMem : r ∉ e.entries

variable {e} {t r : Text}

theorem mem_widened : t ∈ e.widened ↔
    t ∈ ipv4PublicNetworks ∨ (t ∈ e.entries ∧ t ≠ wildcardNetwork) := by
  have hnot := (List.nodup_cons.1 (List.nodup_middle.1 e.nodup)).1
  rw [List.mem_append, not_or] at hnot
  exact mem_replaced hnot.1 hnot.2

theorem route_mem_widened (hr : Route r) : r ∈ e.widened ↔ r ∈ e.entries :=
  mem_widened.trans hr.mem_replaced_iff

theorem Free.notMem_widened (h : e.Free r) : r ∉ e.widened :=
  fun hin => h.notMem ((route_mem_widened h.toRoute).1 hin)

theorem nodup_widened : e.widened.Nodup := by
  have hnodup := e.nodup
  rw [List.nodup_append, List.nodup_cons] at hnodup
  obtain ⟨hbefore, ⟨-, hafter⟩, hcross⟩ := hnodup
  refine List.nodup_append.2 ⟨List.nodup_append.2 ⟨hbefore, Viewmodel.nodup_public, ?_⟩, hafter, ?_⟩
  · rintro t ht u hu rfl
    exact e.noPublic t (List.mem_append_left _ ht) hu
  · rintro t ht u hu rfl
    rcases List.mem_append.1 ht with ht | ht
    · exact hcross t ht t (List.mem_cons_of_mem _ hu) rfl
    · exact e.noPublic t (List.mem_append_right _ (List.mem_cons_of_mem _ hu)) ht

theorem tight_widened : Fields.Tight Java.space e.widened :=
  e.tight.replace fun _ ht => (network_of_mem_public ht).bare

theorem last_widened : ∀ t ∈ e.widened.getLast?, t ≠ [] := by
  have hlast := e.last
  unfold widened
  rcases List.eq_nil_or_concat e.after with hnil | ⟨init, z, hafter⟩
  · intro t ht
    rw [hnil, List.append_nil, List.getLast?_append_of_ne_nil _ (by decide)] at ht
    exact (network_of_mem_public (List.mem_of_mem_getLast? ht)).nonempty
  · intro t ht
    rw [hafter, List.concat_eq_append, ← List.cons_append, ← List.append_assoc,
      List.getLast?_concat] at hlast
    rw [hafter, List.concat_eq_append, ← List.append_assoc, List.getLast?_concat] at ht
    exact hlast t ht

theorem split_routed {routes : List Text} (hroutes : ∀ r ∈ routes, Route r)
    (hends : routes = [] ∨ ∀ t ∈ e.entries, Ended t) :
    Attribute.split (Attribute.join (e.widened ++ routes)) =
      e.widened ++ routes.map (List.dropWhile Java.space) := by
  have hne : e.widened ≠ [] := List.ne_nil_of_mem (mem_widened.2 (.inl List.mem_cons_self))
  have hcomma : ∀ t ∈ e.widened ++ routes, ',' ∉ t := by
    intro t ht
    rcases List.mem_append.1 ht with ht | ht
    · rcases mem_widened.1 ht with ht | ⟨ht, -⟩
      · exact (network_of_mem_public ht).comma
      · exact e.comma t ht
    · exact (hroutes t ht).comma
  cases routes with
  | nil =>
    rw [List.append_nil] at hcomma
    rw [List.map_nil, List.append_nil,
      split_join_tight hne hcomma tight_widened last_widened]
  | cons r rs =>
    obtain ⟨init, z, heq⟩ := (List.eq_nil_or_concat _).resolve_left hne
    have hz : Ended z := by
      rcases mem_widened.1 (show z ∈ e.widened by rw [heq]; simp) with hz | ⟨hz, -⟩
      · exact (network_of_mem_public hz).bare.last
      · exact hends.resolve_left (List.cons_ne_nil r rs) z hz
    have htight := e.tight_widened
    rw [List.concat_eq_append] at heq
    rw [heq, List.append_assoc] at hcomma ⊢
    rw [heq] at htight
    refine (split_join_append hcomma htight (fun u hu => (hroutes u hu).last)
      fun u hu => (hroutes u hu).dropWhile.ne_nil).trans ?_
    rw [ended_iff.1 hz, List.append_assoc]
    rfl

/-- What is cut from the entries with routes behind them. -/
theorem entries_join {p : PeerProxy} {s : LinkedSet Text} {kept new : List Text}
    (hs : s.toList = e.widened ++ kept)
    (hp : p.allowedIps = Attribute.join (s.insertAll new).toList)
    (hfree : ∀ r, r ∈ kept ∨ r ∈ new → e.Free r)
    (hends : (kept = [] ∧ new = []) ∨ ∀ t ∈ e.entries, Ended t) :
    ∃ routes, p.getAllowedIpsSet.toList = e.widened ++ routes ∧
      (∀ q, q ∈ routes ↔ q ∉ e.entries ∧
        ∃ r, (r ∈ kept ∨ r ∈ new) ∧ r.dropWhile Java.space = q) ∧
      ∀ q ∈ routes, e.Free q ∧ q.dropWhile Java.space = q := by
  obtain ⟨added, hadded, hmem⟩ := exists_toList_insertAll s new
  rw [hs, List.append_assoc] at hadded
  have hall : ∀ r, r ∈ kept ++ added ↔ r ∈ kept ∨ r ∈ new := by
    intro r
    rw [List.mem_append]
    refine ⟨fun hr => hr.imp_right fun hr => (hmem r hr).1, fun hr => hr.elim .inl fun hr => ?_⟩
    have hin : r ∈ e.widened ++ (kept ++ added) := by
      rw [← hadded]
      exact mem_insertAll.2 (.inr hr)
    exact List.mem_append.1 ((List.mem_append.1 hin).resolve_left (hfree r (.inr hr)).notMem_widened)
  have hroutes : ∀ r ∈ kept ++ added, Route r := fun r hr => (hfree r ((hall r).1 hr)).toRoute
  have hsplit := split_routed hroutes (hends.imp_left fun hnil => by
    refine List.eq_nil_iff_forall_not_mem.2 fun r hr => ?_
    simpa [hnil] using (hall r).1 hr)
  obtain ⟨routes, heq, hrs⟩ := exists_toList_insertAll
    (empty.insertAll e.widened) ((kept ++ added).map (List.dropWhile Java.space))
  have hset : (empty.insertAll e.widened).toList = e.widened :=
    toList_insertAll nodup_widened fun t _ => List.not_mem_nil
  have hiff : ∀ q, q ∈ routes ↔ q ∉ e.entries ∧
      ∃ r, (r ∈ kept ∨ r ∈ new) ∧ r.dropWhile Java.space = q := by
    intro q
    constructor
    · intro hq
      obtain ⟨hq, hnot⟩ := hrs q hq
      obtain ⟨r, hr, rfl⟩ := List.mem_map.1 hq
      rw [← mem_toList, hset, route_mem_widened (hroutes r hr).dropWhile] at hnot
      exact ⟨hnot, r, (hall r).1 hr, rfl⟩
    · rintro ⟨hnot, r, hr, rfl⟩
      have hr := (hall r).2 hr
      have hin : r.dropWhile Java.space ∈ e.widened ++ routes := by
        rw [← hset, ← heq]
        exact mem_insertAll.2 (.inr (List.mem_map_of_mem hr))
      refine (List.mem_append.1 hin).resolve_left fun hin => ?_
      exact hnot ((route_mem_widened (hroutes r hr).dropWhile).1 hin)
  refine ⟨routes, ?_, hiff, fun q hq => ?_⟩
  · unfold getAllowedIpsSet
    rw [hp, hadded, hsplit, insertAll_append, heq, hset]
  · obtain ⟨hnot, r, hr, rfl⟩ := (hiff q).1 hq
    exact ⟨⟨(hfree r hr).toRoute.dropWhile, hnot⟩, List.dropWhile_idempotent _ r⟩

end Listing

/-- Private addresses are excluded; behind the entries stand routes to DNS servers. -/
structure Excluding (e : Listing) (routes : List Text) (p : PeerProxy) : Prop where
  one : p.totalPeers = 1
  state : p.allowedIpsState = .containsIpv4PublicNetworks
  free : ∀ r ∈ p.dnsRoutes, e.Free r
  entries : p.getAllowedIpsSet.toList = e.widened ++ routes
  routes : ∀ r ∈ routes, e.Free r ∧ r.dropWhile Java.space = r

/-- The texts of the DNS servers, the oldest first: each route without the blanks in front is one of
the entries, or is made from the same text or a later one. -/
def Found (entries : List Text) : List Text → Prop
  | [] => True
  | t :: later => (∀ r ∈ dnsRoutesOf t, r.dropWhile Java.space ∈ entries ∨
      ∃ u ∈ t :: later, r.dropWhile Java.space ∈ dnsRoutesOf u) ∧ Found entries later

section Edits

variable {e : Listing} {routes : List Text} {p : PeerProxy}

theorem excluding_turnOn (hone : p.totalPeers = 1)
    (hstate : p.allowedIpsState = .containsIpv4Wildcard)
    (heq : p.getAllowedIpsSet.toList = e.entries) (hfree : ∀ r ∈ p.dnsRoutes, e.Free r)
    (hends : p.dnsRoutes = [] ∨ ∀ t ∈ e.entries, Ended t) :
    ∃ routes, Excluding e routes (p.setExcludingPrivateIps true) ∧
      ∀ q, q ∈ routes ↔ q ∉ e.entries ∧ ∃ r ∈ p.dnsRoutes, r.dropWhile Java.space = q := by
  have hset : p.excluded.toList = e.widened ++ [] := by
    rw [(excluded_eq heq).2.2, List.append_nil]
    exact toList_insertAll Listing.nodup_widened fun t _ => List.not_mem_nil
  rw [setExcludingPrivateIps_true hstate]
  obtain ⟨routes, hentries, hmem, hroutes⟩ := Listing.entries_join
    (p := { p.setAllowedIps (Attribute.join (p.excluded.insertAll p.dnsRoutes).toList) with
      allowedIpsState := .containsIpv4PublicNetworks }) hset rfl
    (fun r hr => hfree r (hr.resolve_left List.not_mem_nil))
    (hends.imp_left fun hnil => ⟨rfl, hnil⟩)
  simp only [List.not_mem_nil, false_or] at hmem
  exact ⟨routes, ⟨hone, rfl, hfree, hentries, hroutes⟩, hmem⟩

theorem Excluding.setInterfaceDns (hp : Excluding e routes p) {dnsServers : Text}
    (hfree : ∀ r ∈ dnsRoutesOf dnsServers, e.Free r)
    (hends : (routes = [] ∧ dnsRoutesOf dnsServers = []) ∨ ∀ t ∈ e.entries, Ended t) :
    ∃ routes', Excluding e routes' (p.setInterfaceDns dnsServers) ∧
      ∀ q, q ∈ routes' ↔ (q ∈ routes ∧ (q ∉ p.dnsRoutes ∨ q ∈ dnsRoutesOf dnsServers)) ∨
        (q ∉ e.entries ∧ ∃ r ∈ dnsRoutesOf dnsServers, r.dropWhile Java.space = q) := by
  let keep : Text → Bool := fun t => !p.dnsRoutes.contains t || (dnsRoutesOf dnsServers).contains t
  have hkeep : ∀ q, q ∈ routes.filter keep ↔
      q ∈ routes ∧ (q ∉ p.dnsRoutes ∨ q ∈ dnsRoutesOf dnsServers) := by
    intro q
    simp [keep]
  have hkept : ∀ r ∈ routes.filter keep, e.Free r ∧ r.dropWhile Java.space = r :=
    fun r hr => hp.routes r (List.mem_of_mem_filter hr)
  -- the entries stay, and of the routes those that are no old ones or also new ones
  have hfilter : p.getAllowedIpsSet.toList.filter keep = e.widened ++ routes.filter keep := by
    rw [hp.entries, List.filter_append]
    congr 1
    rw [List.filter_eq_self]
    intro t ht
    have hnot : t ∉ p.dnsRoutes := fun hr => (hp.free t hr).notMem_widened ht
    simp [keep, hnot]
  have hset : (empty.insertAll (p.getAllowedIpsSet.toList.filter keep)).toList =
      e.widened ++ routes.filter keep := by
    rw [← hfilter]
    exact toList_insertAll (p.getAllowedIpsSet.nodup.filter _) fun t _ => List.not_mem_nil
  obtain ⟨-, hdns⟩ := (setInterfaceDns_cases p dnsServers).resolve_left fun hnot => hnot.1 hp.state
  rw [insertAll_append] at hdns
  obtain ⟨routes', hentries, hmem, hroutes⟩ := Listing.entries_join
    (p := p.setInterfaceDns dnsServers) hset (by rw [hdns]; rfl)
    (fun r hr => hr.elim (fun hr => (hkept r hr).1) (hfree r))
    (hends.imp_left fun hnil => ⟨by rw [hnil.1]; rfl, hnil.2⟩)
  have hone : (p.setInterfaceDns dnsServers).totalPeers = 1 := by
    rw [hdns]
    exact hp.one
  have hmem' : ∀ t, t ∈ (p.setInterfaceDns dnsServers).getAllowedIpsSet ↔
      t ∈ e.widened ++ routes' := by
    intro t
    rw [← mem_toList, hentries]
  refine ⟨routes', ⟨hone, ?_, hfree, hentries, hroutes⟩, fun q => ?_⟩
  · have hfresh : (p.setInterfaceDns dnsServers).Fresh := by
      rw [hdns]
      exact fresh_setAllowedIps p _
    refine hfresh.trans (currentState_public hone ?_ ?_)
    · rw [contains_wildcard, hmem', List.mem_append, Listing.mem_widened]
      rintro ((hpublic | ⟨-, hne⟩) | hroute)
      · exact wildcard_notMem_public hpublic
      · exact hne rfl
      · exact (hroutes _ hroute).1.toRoute.not_network network_wildcard
    · intro t ht
      rw [← mem_getAllowedIpsSet, hmem', List.mem_append, Listing.mem_widened]
      exact .inl (.inl ht)
  · rw [hmem, ← hkeep]
    constructor
    · rintro ⟨hnot, r, hr | hr, rfl⟩
      · rw [(hkept r hr).2]
        exact .inl hr
      · exact .inr ⟨hnot, r, hr, rfl⟩
    · rintro (hq | ⟨hnot, r, hr, rfl⟩)
      · exact ⟨(hkept q hq).1.notMem, q, .inl hq, (hkept q hq).2⟩
      · exact ⟨hnot, r, .inr hr, rfl⟩

theorem Excluding.included (hp : Excluding e routes p) :
    p.included.toList = e.entries ++ routes := by
  have hentries : p.getAllowedIpsSet.toList =
      e.before ++ "0.0.0.0/5".toList :: (ipv4PublicNetworks.tail ++ (e.after ++ routes)) := by
    rw [hp.entries, Listing.widened, List.append_assoc, List.append_assoc]
    rfl
  have hnone : ∀ t ∈ e.after ++ routes, t ∉ ipv4PublicNetworks := by
    intro t ht
    rcases List.mem_append.1 ht with ht | ht
    · exact e.noPublic t (List.mem_append_right _ (List.mem_cons_of_mem _ ht))
    · exact fun hnet => (hp.routes t ht).1.toRoute.not_network (network_of_mem_public hnet)
  -- behind the first network only the other public networks are dropped
  have hfilter : (ipv4PublicNetworks.tail ++ (e.after ++ routes)).filter
      (· ∉ ipv4PublicNetworks) = e.after ++ routes := by
    have htail : ipv4PublicNetworks.tail.filter (· ∉ ipv4PublicNetworks) = [] := by decide
    rw [List.filter_append, htail, List.nil_append, List.filter_eq_self]
    exact fun t ht => decide_eq_true (hnone t ht)
  have hlist : e.before ++ ipv4Wildcard ++ (e.after ++ routes) = e.entries ++ routes := by
    rw [ipv4Wildcard_eq, Listing.entries]
    simp
  have hnodup : (e.entries ++ routes).Nodup := by
    have hnodup := p.getAllowedIpsSet.nodup
    rw [hp.entries, List.nodup_append] at hnodup
    refine List.nodup_append.2 ⟨e.nodup, hnodup.2.1, ?_⟩
    rintro t ht u hu rfl
    exact (hp.routes t hu).1.notMem ht
  unfold PeerProxy.included
  rw [hentries, foldl_replaceNetwork (fun t ht => e.noPublic t (List.mem_append_left _ ht))
    List.mem_cons_self, hfilter, hlist]
  exact toList_insertAll hnodup fun t _ => List.not_mem_nil

theorem Excluding.turnOff_iff (hp : Excluding e routes p) :
    (p.setExcludingPrivateIps false).getAllowedIpsSet.toList = e.entries ↔
      ∀ r ∈ routes, r ∈ p.dnsRoutes := by
  rw [setExcludingPrivateIps_false hp.state]
  constructor
  · intro heq r hr
    by_contra hnot
    obtain ⟨hfree, hdrop⟩ := hp.routes r hr
    have hmem : r ∈ p.included.removeAll p.dnsRoutes := by
      rw [mem_removeAll, ← mem_toList, hp.included]
      exact ⟨List.mem_append_right _ hr, hnot⟩
    have hcomma : ∀ t ∈ (p.included.removeAll p.dnsRoutes).toList, ',' ∉ t := by
      intro t ht
      have ht := (mem_removeAll.1 ht).1
      rw [← mem_toList, hp.included] at ht
      exact (List.mem_append.1 ht).elim (e.comma t) fun ht => (hp.routes t ht).1.comma
    have hbare : Fields.Bare Java.space r :=
      ⟨fun c hc => Fields.head_dropWhile _ r c (by rwa [hdrop]), hfree.toRoute.last⟩
    -- a route that is not removed is cut from the text again
    have hin := mem_split_join hcomma hmem hfree.toRoute.ne_nil hbare
    refine hfree.notMem ?_
    rw [← heq]
    exact mem_getAllowedIpsSet.2 hin
  · intro hall
    have hremoved : (p.included.removeAll p.dnsRoutes).toList = e.entries :=
      toList_removeAll hp.included (fun t ht hr => (hp.free t hr).notMem ht) hall
    refine getAllowedIpsSet_join ?_ (by simp [Listing.entries]) e.comma e.tight e.last e.nodup
    exact congrArg Attribute.join hremoved

theorem Excluding.run_iff (hp : Excluding e routes p) (edits : List Text)
    (hfree : ∀ t ∈ edits, ∀ r ∈ dnsRoutesOf t, e.Free r)
    (hends : (routes = [] ∧ ∀ t ∈ edits, dnsRoutesOf t = []) ∨ ∀ t ∈ e.entries, Ended t) :
    ((edits.foldl PeerProxy.setInterfaceDns p).setExcludingPrivateIps false).getAllowedIpsSet.toList =
        e.entries ↔
      (∀ q ∈ routes, q ∈ p.dnsRoutes ∨ ∃ u ∈ edits, q ∈ dnsRoutesOf u) ∧ Found e.entries edits := by
  induction edits generalizing p routes with
  | nil => simp [Found, hp.turnOff_iff]
  | cons t edits ih =>
    obtain ⟨routes', hp', hmem⟩ := hp.setInterfaceDns (hfree t List.mem_cons_self)
      (hends.imp_left fun hnil => ⟨hnil.1, hnil.2 t List.mem_cons_self⟩)
    have hrest := ih hp' (fun u hu => hfree u (List.mem_cons_of_mem _ hu)) (by
      refine hends.imp_left fun hnil => ⟨?_, fun u hu => hnil.2 u (List.mem_cons_of_mem _ hu)⟩
      refine List.eq_nil_iff_forall_not_mem.2 fun q hq => ?_
      simp [hmem, hnil.1, hnil.2 t List.mem_cons_self] at hq)
    rw [List.foldl_cons, hrest, dnsRoutes_setInterfaceDns, Found, ← and_assoc]
    refine and_congr_left fun _ => ?_
    simp only [hmem, List.mem_cons, exists_eq_or_imp]
    constructor
    · refine fun hall => ⟨fun q hq => ?_, fun r hr => ?_⟩
      · exact or_iff_not_imp_left.2 fun hold => hall q (.inl ⟨hq, .inl hold⟩)
      · exact or_iff_not_imp_left.2 fun hin => hall _ (.inr ⟨hin, r, hr, rfl⟩)
    · rintro ⟨hold, hnew⟩ q (⟨hq, hq'⟩ | ⟨hnot, r, hr, rfl⟩)
      · rcases hold q hq with hq | hq
        · exact .inl (hq'.resolve_left (not_not.2 hq))
        · exact hq
      · exact (hnew r hr).resolve_left hnot

end Edits

section Run

variable {n : Nat} {dnsServers t value : Text} {p : PeerProxy}

def AllEnded (p : PeerProxy) : Prop := ∀ t ∈ p.getAllowedIpsSet, Ended t

theorem allEnded_join {ts : List Text} (hp : p.allowedIps = Attribute.join ts)
    (hcomma : ∀ t ∈ ts, ',' ∉ t) (hlast : ∀ t ∈ ts.getLast?, Ended t) : p.AllEnded := by
  intro t ht
  rw [mem_getAllowedIpsSet, hp] at ht
  exact last_of_mem_split_join hcomma hlast ht

/-- A route that is put last takes the blanks from the entry before it. -/
theorem allEnded_insertAll {s : LinkedSet Text} {new : List Text} {r : Text}
    (hp : p.allowedIps = Attribute.join (s.insertAll new).toList) (hs : ∀ t ∈ s, ',' ∉ t)
    (hroutes : ∀ r ∈ new, Route r) (hr : r ∈ new) (hnot : r ∉ s) : p.AllEnded := by
  obtain ⟨added, heq, hadded⟩ := exists_toList_insertAll s new
  have hne : added ≠ [] := by
    rintro rfl
    have hin : r ∈ (s.insertAll new).toList := mem_insertAll.2 (.inr hr)
    rw [heq, List.append_nil] at hin
    exact hnot hin
  refine allEnded_join (hp.trans (congrArg _ heq)) ?_ ?_
  · intro t ht
    exact (List.mem_append.1 ht).elim (hs t) fun ht => (hroutes t (hadded t ht).1).comma
  · intro t ht
    rw [List.getLast?_append_of_ne_nil _ hne] at ht
    exact (hroutes t (hadded t (List.mem_of_mem_getLast? ht)).1).last

theorem mem_dnsTexts (ht : t ∈ empty.insertAll (p.getAllowedIpsSet.toList.filter
      (fun t => !p.dnsRoutes.contains t || (dnsRoutesOf value).contains t) ++ dnsRoutesOf value)) :
    ',' ∉ t ∧ (t ∈ p.getAllowedIpsSet ∨ Route t) := by
  have ht := (mem_insertAll.1 ht).resolve_left List.not_mem_nil
  rcases List.mem_append.1 ht with ht | ht
  · have ht := List.mem_of_mem_filter ht
    exact ⟨comma_of_mem_getAllowedIpsSet ht, .inl ht⟩
  · exact ⟨(route_of_mem ht).comma, .inr (route_of_mem ht)⟩

theorem AllEnded.setInterfaceDns (h : p.AllEnded) (value : Text) :
    (p.setInterfaceDns value).AllEnded := by
  rcases setInterfaceDns_cases p value with ⟨-, heq⟩ | ⟨-, heq⟩
  · rw [heq]
    exact h
  · refine allEnded_join (by rw [heq]; rfl) (fun t ht => (mem_dnsTexts ht).1) fun t ht => ?_
    exact (mem_dnsTexts (List.mem_of_mem_getLast? ht)).2.elim (h t) Route.last

theorem AllEnded.run (h : p.AllEnded) (edits : List Text) :
    (edits.foldl PeerProxy.setInterfaceDns p).AllEnded := by
  induction edits generalizing p with
  | nil => exact h
  | cons t edits ih => exact ih (h.setInterfaceDns t)

theorem Kept.contains_setInterfaceDns (h : p.Kept n dnsServers)
    (hcontains : p.Contains ipv4PublicNetworks) (value : Text) :
    (p.setInterfaceDns value).Contains ipv4PublicNetworks := by
  rcases setInterfaceDns_cases p value with ⟨-, heq⟩ | ⟨-, heq⟩
  · rw [heq]
    exact hcontains
  · intro t ht
    have hnet := network_of_mem_public ht
    have hnot : t ∉ p.dnsRoutes := fun hr => (h.route t hr).not_network hnet
    rw [heq]
    refine mem_split_join (fun u hu => (mem_dnsTexts hu).1) ?_ hnet.nonempty hnet.bare
    refine mem_insertAll.2 (.inr (List.mem_append_left _ (List.mem_filter.2 ⟨?_, ?_⟩)))
    · exact mem_getAllowedIpsSet.2 (hcontains t ht)
    · simp [hnot]

theorem Kept.run (h : p.Kept n dnsServers) (hcontains : p.Contains ipv4PublicNetworks)
    (edits : List Text) : (∃ value, (edits.foldl PeerProxy.setInterfaceDns p).Kept n value) ∧
      (edits.foldl PeerProxy.setInterfaceDns p).Contains ipv4PublicNetworks := by
  induction edits generalizing p dnsServers with
  | nil => exact ⟨⟨dnsServers, h⟩, hcontains⟩
  | cons t edits ih => exact ih (h.setInterfaceDns t).1 (h.contains_setInterfaceDns hcontains t)

/-- What turning it off leaves has no empty entry at its end, and a blank there only if there was
one before. -/
theorem Kept.last_undone (h : p.Kept n dnsServers) (hcontains : p.Contains ipv4PublicNetworks)
    {entries : List Text} (hresult : (p.setExcludingPrivateIps false).getAllowedIpsSet.toList = entries)
    (hnone : ∀ t ∈ entries, t ∉ ipv4PublicNetworks) :
    (∀ t ∈ entries.getLast?, t ≠ []) ∧ (p.AllEnded → ∀ t ∈ entries, Ended t) := by
  rcases setExcludingPrivateIps_cases p false with hsame | ⟨hfalse, -⟩ | ⟨-, hstate⟩
  · -- nothing was done, and the public networks are still there
    have hmem := mem_getAllowedIpsSet.2 (hcontains _ List.mem_cons_self)
    rw [← mem_toList, ← hsame, hresult] at hmem
    exact absurd List.mem_cons_self (hnone _ hmem)
  · cases hfalse
  let ts := (p.included.removeAll p.dnsRoutes).toList
  have hcomma : ∀ t ∈ ts, ',' ∉ t :=
    fun t ht => comma_of_mem_included hcontains (mem_removeAll.1 ht).1
  have htight : Fields.Tight Java.space ts := (tight_included hcontains).sublist List.filter_sublist
  have hwildcard : wildcardNetwork ∈ ts := by
    refine mem_removeAll.2 ⟨(mem_included hcontains).2 (.inl rfl), fun hroute => ?_⟩
    exact (h.route _ hroute).not_network network_wildcard
  rw [setExcludingPrivateIps_false hstate] at hresult
  constructor
  · have hnil : ts ≠ [[]] := by
      intro hnil
      rw [hnil] at hwildcard
      exact network_wildcard.nonempty (List.mem_singleton.1 hwildcard)
    have hsplit := split_join_eq (List.ne_nil_of_mem hwildcard) hnil hcomma
    rw [htight.trim_eq] at hsplit
    have hnodup : (ts.rdropWhile List.isEmpty).Nodup :=
      (p.included.removeAll p.dnsRoutes).nodup.sublist (List.rdropWhile_prefix _ _).sublist
    have hlist : (empty.insertAll (Attribute.split (Attribute.join ts))).toList =
        ts.rdropWhile List.isEmpty := by
      rw [hsplit]
      exact toList_insertAll hnodup fun t _ => List.not_mem_nil
    rw [← hresult]
    intro t ht
    refine List.isEmpty_eq_false_iff.1 (Fields.last_rdropWhile List.isEmpty ts t ?_)
    rw [← hlist]
    exact ht
  · intro hended
    rw [← hresult]
    refine allEnded_join (show _ = Attribute.join ts from rfl) hcomma fun t ht => ?_
    have ht := (mem_removeAll.1 (List.mem_of_mem_getLast? ht)).1
    rcases (mem_included hcontains).1 ht with rfl | ⟨ht, -⟩
    · exact network_wildcard.bare.last
    · exact hended t ht

variable {e : Listing} {edits : List Text}

theorem Excluding.allEnded (hp : Excluding e [] p)
    (hfree : ∀ t ∈ edits, ∀ r ∈ dnsRoutesOf t, e.Free r)
    (hsome : ¬ ∀ t ∈ edits, dnsRoutesOf t = []) :
    (edits.foldl PeerProxy.setInterfaceDns p).AllEnded := by
  induction edits generalizing p with
  | nil => exact absurd (fun t ht => absurd ht List.not_mem_nil) hsome
  | cons t edits ih =>
    have ht := hfree t List.mem_cons_self
    by_cases hnone : dnsRoutesOf t = []
    · obtain ⟨routes, hp', hmem⟩ := hp.setInterfaceDns ht (.inl ⟨rfl, hnone⟩)
      have hnil : routes = [] :=
        List.eq_nil_iff_forall_not_mem.2 fun q hq => by simp [hmem, hnone] at hq
      rw [hnil] at hp'
      refine ih hp' (fun u hu => hfree u (List.mem_cons_of_mem _ hu)) fun hrest => hsome ?_
      exact List.forall_mem_cons.2 ⟨hnone, hrest⟩
    · refine AllEnded.run ?_ edits
      obtain ⟨r, hr⟩ := List.exists_mem_of_ne_nil _ hnone
      obtain ⟨-, hdns⟩ := (setInterfaceDns_cases p t).resolve_left fun hnot => hnot.1 hp.state
      rw [insertAll_append] at hdns
      have hentry : ∀ {u : Text}, u ∈ empty.insertAll (p.getAllowedIpsSet.toList.filter
          (fun u => !p.dnsRoutes.contains u || (dnsRoutesOf t).contains u)) →
            u ∈ p.getAllowedIpsSet.toList := fun hu =>
        List.mem_of_mem_filter ((mem_insertAll.1 hu).resolve_left List.not_mem_nil)
      refine allEnded_insertAll (by rw [hdns]; rfl)
        (fun u hu => comma_of_mem_getAllowedIpsSet (hentry hu)) (fun r hr => route_of_mem hr) hr ?_
      intro hin
      have hin := hentry hin
      rw [hp.entries, List.append_nil] at hin
      exact (ht r hr).notMem_widened hin

theorem allEnded_undone (hp : p.Kept 1 dnsServers)
    (hstate : p.allowedIpsState = .containsIpv4Wildcard)
    (heq : p.getAllowedIpsSet.toList = e.entries)
    (hfree : ∀ t ∈ dnsServers :: edits, ∀ r ∈ dnsRoutesOf t, e.Free r)
    (hsome : ¬ ∀ t ∈ dnsServers :: edits, dnsRoutesOf t = []) :
    (edits.foldl PeerProxy.setInterfaceDns (p.setExcludingPrivateIps true)).AllEnded := by
  obtain ⟨hdns, hedits⟩ := List.forall_mem_cons.1 hfree
  rw [← hp.routes] at hdns
  by_cases hnone : p.dnsRoutes = []
  · obtain ⟨routes, hexcluding, hmem⟩ := excluding_turnOn hp.total hstate heq hdns (.inl hnone)
    have hnil : routes = [] :=
      List.eq_nil_iff_forall_not_mem.2 fun q hq => by simp [hmem, hnone] at hq
    rw [hnil] at hexcluding
    refine hexcluding.allEnded hedits fun hrest => hsome ?_
    exact List.forall_mem_cons.2 ⟨hp.routes ▸ hnone, hrest⟩
  · refine AllEnded.run ?_ edits
    obtain ⟨r, hr⟩ := List.exists_mem_of_ne_nil _ hnone
    have hwildcard : wildcardNetwork ∈ p.getAllowedIpsSet := mem_of_wildcard hp.state hstate
    have hset : (p.setExcludingPrivateIps true).allowedIps =
        Attribute.join (p.excluded.insertAll p.dnsRoutes).toList := by
      rw [setExcludingPrivateIps_true hstate]
      rfl
    refine allEnded_insertAll hset (fun t ht => comma_of_mem_excluded hwildcard ht) hp.route hr
      fun hin => (hdns r hr).notMem ?_
    rw [← heq]
    exact (hp.route r hr).mem_replaced_iff.1 ((mem_excluded hwildcard).1 hin)

/-- Turning it on, changing the DNS servers any number of times and turning it off gives the entries
back if and only if the last one is not empty, has no blank at its end or no route behind it, and
every route is found again. -/
theorem setExcludingPrivateIps_undo_iff (hp : p.Kept 1 dnsServers)
    (hwildcard : p.Contains ipv4Wildcard)
    (hpublic : ∀ t ∈ ipv4PublicNetworks, t ∉ Attribute.split p.allowedIps)
    (hroutes : ∀ t ∈ dnsServers :: edits, ∀ r ∈ dnsRoutesOf t, r ∉ Attribute.split p.allowedIps) :
    ((edits.foldl setInterfaceDns (p.setExcludingPrivateIps true)).setExcludingPrivateIps
        false).getAllowedIpsSet = p.getAllowedIpsSet ↔
      (∀ z ∈ p.getAllowedIpsSet.toList.getLast?, z ≠ [] ∧
        (z.rdropWhile Java.space = z ∨ ∀ t ∈ dnsServers :: edits, dnsRoutesOf t = [])) ∧
      Found p.getAllowedIpsSet.toList (dnsServers :: edits) := by
  obtain ⟨before, after, heq, -⟩ := excluded_cases (contains_wildcard.1 hwildcard)
  have hmem : ∀ t, t ∈ p.getAllowedIpsSet.toList ↔ t ∈ Attribute.split p.allowedIps :=
    fun t => mem_getAllowedIpsSet
  have hnone : ∀ t ∈ p.getAllowedIpsSet.toList, t ∉ ipv4PublicNetworks :=
    fun t ht hnet => hpublic t hnet ((hmem t).1 ht)
  have htight := tight_getAllowedIpsSet p
  -- the entries have no public network, so the state is not a written one
  have hfresh : p.Fresh := by
    refine hp.state.resolve_right fun hstale => ?_
    exact hpublic _ List.mem_cons_self (hstale.networks _ List.mem_cons_self)
  have hstate := (hp.wildcard_iff hfresh).2 ⟨rfl, hwildcard⟩
  have hon := (hp.turnOn hstate).1
  have hstate' : (p.setExcludingPrivateIps true).allowedIpsState = .containsIpv4PublicNetworks := by
    rw [setExcludingPrivateIps_true hstate]
  obtain ⟨⟨value, hkept⟩, hcontains⟩ := hon.run (contains_of_public hon.state hstate') edits
  obtain ⟨z, hz⟩ : ∃ z, p.getAllowedIpsSet.toList.getLast? = some z :=
    ⟨_, List.getLast?_eq_getLast_of_ne_nil (by rw [heq]; simp)⟩
  have hundone := fun hresult => hkept.last_undone hcontains (congrArg toList hresult) hnone
  rw [hz]
  simp only [Option.mem_some_iff, forall_eq']
  by_cases hne : z = []
  · exact iff_of_false (fun hresult => (hundone hresult).1 z hz hne) fun hcond => hcond.1.1 hne
  have hended : (∀ t ∈ p.getAllowedIpsSet.toList, Ended t) ↔ z.rdropWhile Java.space = z := by
    rw [← ended_iff]
    refine ⟨fun hall => hall z (List.mem_of_mem_getLast? hz), fun hlast => ended_of_last htight ?_⟩
    rw [hz]
    exact fun t ht => Option.mem_some_iff.1 ht ▸ hlast
  let e : Listing := ⟨before, after, heq ▸ p.getAllowedIpsSet.nodup,
    heq ▸ fun t ht => comma_notMem_of_mem_split ((hmem t).1 ht), heq ▸ htight,
    heq ▸ hz ▸ fun t ht => Option.mem_some_iff.1 ht ▸ hne, heq ▸ hnone⟩
  have heq : p.getAllowedIpsSet.toList = e.entries := heq
  have hfree : ∀ t ∈ dnsServers :: edits, ∀ r ∈ dnsRoutesOf t, e.Free r := fun t ht r hr =>
    ⟨route_of_mem hr, fun hin => hroutes t ht r hr ((hmem r).1 (heq ▸ hin))⟩
  rw [← hended]
  by_cases hcond : (∀ t ∈ p.getAllowedIpsSet.toList, Ended t) ∨
      ∀ t ∈ dnsServers :: edits, dnsRoutesOf t = []
  · rw [and_iff_right (And.intro hne hcond)]
    obtain ⟨hdns, hedits⟩ := List.forall_mem_cons.1 hfree
    rw [← hp.routes] at hdns
    rw [heq] at hcond
    obtain ⟨routes, hexcluding, hroute⟩ := excluding_turnOn hp.total hstate heq hdns
      (hcond.symm.imp_left fun hnil => hp.routes.trans (hnil _ List.mem_cons_self))
    have hrun := hexcluding.run_iff edits hedits (hcond.symm.imp_left fun hnil =>
      ⟨List.eq_nil_iff_forall_not_mem.2 fun q hq => by
        simp [hroute, hp.routes, hnil _ List.mem_cons_self] at hq,
        fun t ht => hnil t (List.mem_cons_of_mem _ ht)⟩)
    rw [← heq] at hrun hroute
    refine Iff.trans ⟨congrArg toList, ext_toList⟩ (hrun.trans ?_)
    simp only [Found, hroute, hon.routes, hp.routes, List.mem_cons, exists_eq_or_imp]
    refine and_congr_left fun _ => ⟨fun hall r hr => ?_, ?_⟩
    · exact or_iff_not_imp_left.2 fun hnot => hall _ ⟨hnot, r, hr, rfl⟩
    · rintro hall q ⟨hnot, r, hr, rfl⟩
      exact (hall r hr).resolve_left hnot
  · refine iff_of_false (fun hresult => hcond (.inl ((hundone hresult).2 ?_))) fun hright =>
      hcond hright.1.2
    exact allEnded_undone hp hstate heq hfree fun hnil => hcond (.inr hnil)

end Run

def officePeer : PeerProxy where
  dnsRoutes := dnsRoutesOf "1.1.1.1".toList
  allowedIpsState := .containsIpv4Wildcard
  bound := true
  totalPeers := 1
  allowedIps := "0.0.0.0/0, 10.1.0.0/16".toList

theorem kept_officePeer : officePeer.Kept 1 "1.1.1.1".toList :=
  ⟨rfl, rfl, rfl, .inl (by unfold Fresh; decide)⟩

theorem setExcludingPrivateIps_undo_office :
    ((["8.8.8.8, ::1".toList, [], " 9.9.9.9, 9.9.9.9".toList].foldl setInterfaceDns
      (officePeer.setExcludingPrivateIps true)).setExcludingPrivateIps false).getAllowedIpsSet =
        officePeer.getAllowedIpsSet := by
  refine (setExcludingPrivateIps_undo_iff kept_officePeer (by decide) (by decide)
    (by decide +kernel)).2 ⟨by decide +kernel, ?_⟩
  simp only [Found]
  decide +kernel

end PeerProxy

namespace ConfigProxy

def undoEvents (allowedIps dnsServers : String) : List Event :=
  [.addPeer, .setDnsServers "1.1.1.1".toList, .setAllowedIps 0 allowedIps.toList,
   .setExcludingPrivateIps 0 true, .setDnsServers dnsServers.toList,
   .setExcludingPrivateIps 0 false]

/-- A blank in front of the DNS servers leaves a route behind, a blank after the addresses is lost. -/
theorem undo_leaves_route :
    (Runs.run step { interfaze := {} } (undoEvents "0.0.0.0/0, 10.1.0.0/16" " 8.8.8.8")).peers.map
        (·.allowedIps) = ["0.0.0.0/0, 10.1.0.0/16, 8.8.8.8/32".toList] ∧
      (Runs.run step { interfaze := {} } (undoEvents "0.0.0.0/0, 10.1.0.0/16 " "8.8.8.8")).peers.map
        (·.allowedIps) = ["0.0.0.0/0, 10.1.0.0/16".toList] := by
  decide +kernel

end ConfigProxy

end Amnezia.Viewmodel

import Amnezia.Lib.Fields
import Amnezia.Lib.Links
import Amnezia.Lib.Loops
import Amnezia.Tools.Config
import Mathlib.Data.List.Nodup
import Mathlib.Data.List.SplitBy

/-!
# Joining the fragments of a peer

`ipc-linux.h`: the answer of the kernel comes in fragments.  `parse_peers` makes a peer of each and
`parse_allowedips` appends its allowed IPs, both to a list that is linked in memory and has a pointer
to its last element; `coalesce_peers` then joins adjacent peers with the same public key in place.
-/

namespace Amnezia.Tools

open Links

section Program

variable {Addr : Type}

/-- A peer in memory; the allowed IPs are behind `first_allowedip`. -/
structure PeerCell (Addr : Type) where
  peer : WgPeer Addr
  firstAllowedip : Option Nat := none
  lastAllowedip : Option Nat := none

/-- The cells of the device's lists, each with its next pointer, and the pointers in the device.
`calloc` gives the addresses in order and never one twice. -/
structure Memory (Addr : Type) where
  peers : Nat → Option (PeerCell Addr × Option Nat) := fun _ => none
  allowedips : Nat → Option (WgAllowedIp Addr × Option Nat) := fun _ => none
  peerCount : Nat := 0
  allowedipCount : Nat := 0
  firstPeer : Option Nat := none
  lastPeer : Option Nat := none

def parseAllowedips (a : Nat) (m : Memory Addr) (ip : WgAllowedIp Addr) :
    Except Stop (Memory Addr) := do
  let new := m.allowedipCount
  let ips := Function.update m.allowedips new (some (ip, none))
  let (c, next) ← load m.peers a
  if c.firstAllowedip = none then
    return { m with
      allowedips := ips, allowedipCount := new + 1
      peers := Function.update m.peers a
        (some ({ c with firstAllowedip := some new, lastAllowedip := some new }, next)) }
  let last ← address c.lastAllowedip
  let (v, _) ← load ips last
  return { m with
    allowedips := Function.update ips last (some (v, some new)), allowedipCount := new + 1
    peers := Function.update m.peers a (some ({ c with lastAllowedip := some new }, next)) }

def linkPeer (m : Memory Addr) (f : WgPeer Addr) : Except Stop (Memory Addr) := do
  let new := m.peerCount
  let peers := Function.update m.peers new (some ({ peer := { f with allowedIps := [] } }, none))
  if m.firstPeer = none then
    return { m with peers, peerCount := new + 1, firstPeer := some new, lastPeer := some new }
  let last ← address m.lastPeer
  let (c, _) ← load peers last
  return { m with
    peers := Function.update peers last (some (c, some new)), peerCount := new + 1
    lastPeer := some new }

def parsePeer (m : Memory Addr) (f : WgPeer Addr) : Except Stop (Memory Addr) := do
  f.allowedIps.foldlM (parseAllowedips m.peerCount) (← linkPeer m f)

def parsePeers (fs : List (WgPeer Addr)) : Except Stop (Memory Addr) := fs.foldlM parsePeer {}

/-- The body of the loop for two peers with the same key, at `a` and `b`. -/
def absorb (m : Memory Addr) (a : Nat) (c : PeerCell Addr) (b : Nat) (d : PeerCell Addr)
    (next : Option Nat) : Except Stop (Memory Addr) := do
  -- `peer->next_peer = old_next_peer->next_peer; free(old_next_peer)`
  let unlink := fun c : PeerCell Addr =>
    Function.update (Function.update m.peers a (some (c, next))) b none
  if c.firstAllowedip = none then
    let c := { c with firstAllowedip := d.firstAllowedip, lastAllowedip := d.lastAllowedip }
    return { m with peers := unlink c }
  let last ← address c.lastAllowedip
  let (v, _) ← load m.allowedips last
  let c := { c with lastAllowedip := d.lastAllowedip }
  let ips := Function.update m.allowedips last (some (v, d.firstAllowedip))
  return { m with peers := unlink c, allowedips := ips }

/-- `coalesce_peers`, from the peer at `a` on. -/
def coalesceFrom : Nat → Memory Addr → Nat → Except Stop (Memory Addr)
  | 0, _, _ => .error .outOfFuel
  | fuel + 1, m, a => do
    let (c, next) ← load m.peers a
    match next with
    | none => return m
    | some b =>
      let (d, next') ← load m.peers b
      if c.peer.key ≠ d.peer.key then coalesceFrom fuel m b
      else coalesceFrom fuel (← absorb m a c b d next') a

def coalescePeers (fuel : Nat) (m : Memory Addr) : Except Stop (Memory Addr) :=
  match m.firstPeer with
  | none => .ok m
  | some a => coalesceFrom fuel m a

end Program

/-! ## What is in memory -/

section Representation

variable {Addr : Type}

structure Place (Addr : Type) where
  addr : Nat
  cell : PeerCell Addr
  ips : List (Nat × WgAllowedIp Addr)

def Place.peer (x : Place Addr) : WgPeer Addr := { x.cell.peer with allowedIps := x.ips.map (·.2) }

def Place.Tailed (x : Place Addr) : Prop := x.cell.lastAllowedip = x.ips.getLast?.map (·.1)

/-- The peers from a pointer on; no two of them share a cell. -/
structure InMemory (m : Memory Addr) (p : Option Nat) (xs : List (Place Addr)) : Prop where
  peers : IsList m.peers p (xs.map fun x => (x.addr, x.cell))
  ips : ∀ x ∈ xs, IsList m.allowedips x.cell.firstAllowedip x.ips
  addrs : (xs.map Place.addr).Nodup
  ipAddrs : (xs.flatMap fun x => x.ips.map (·.1)).Nodup

def Memory.Lists (m : Memory Addr) (l : List (WgPeer Addr)) : Prop :=
  ∃ xs, InMemory m m.firstPeer xs ∧ xs.map Place.peer = l

theorem Place.peer_key (x : Place Addr) : x.peer.key = x.cell.peer.key := rfl

end Representation

/-! ## The loop on lists -/

section Lists

variable {Addr : Type} {fs : List (WgPeer Addr)} {p : WgPeer Addr} {known : Bool}

def WgPeer.join (p f : WgPeer Addr) : WgPeer Addr :=
  { p with allowedIps := p.allowedIps ++ f.allowedIps }

/-- `coalesce_peers` on a list, where `known` says whether the last allowed IP of the first peer is
known; `none` is the access to `NULL`. -/
def coalesce : WgPeer Addr → Bool → List (WgPeer Addr) → Option (List (WgPeer Addr))
  | p, _, [] => some [p]
  | p, known, f :: fs =>
    if p.key ≠ f.key then (coalesce f true fs).map (p :: ·)
    else if p.allowedIps = [] then coalesce (p.join f) true fs
    else if known then coalesce (p.join f) (!f.allowedIps.isEmpty) fs
    else none

def joinRun (run : List (WgPeer Addr)) : Option (WgPeer Addr) :=
  run.head?.map fun p => { p with allowedIps := run.flatMap (·.allowedIps) }

def runs (fs : List (WgPeer Addr)) : List (List (WgPeer Addr)) :=
  fs.splitBy fun p f => p.key == f.key

def joined (fs : List (WgPeer Addr)) : List (WgPeer Addr) := (runs fs).filterMap joinRun

/-- A fragment without allowed IPs that follows one with some is the last one. -/
def EmptyLast (started : Prop) (fs : List (WgPeer Addr)) : Prop :=
  ∀ pre e post, fs = pre ++ e :: post → e.allowedIps = [] →
    (started ∨ ∃ f ∈ pre, f.allowedIps ≠ []) → post = []

variable {f : WgPeer Addr}

theorem emptyLast_cons {started : Prop} :
    EmptyLast started (f :: fs) ↔
      ((started ∧ f.allowedIps = []) → fs = []) ∧ EmptyLast (started ∨ f.allowedIps ≠ []) fs := by
  constructor
  · intro h
    constructor
    · intro hf
      exact h [] f fs rfl hf.2 (.inl hf.1)
    · intro pre e post hfs he hbefore
      refine h (f :: pre) e post (by rw [hfs, List.cons_append]) he ?_
      rcases hbefore with (hstarted | hf) | ⟨g, hg, hne⟩
      · exact .inl hstarted
      · exact .inr ⟨f, List.mem_cons_self, hf⟩
      · exact .inr ⟨g, List.mem_cons_of_mem f hg, hne⟩
  · rintro ⟨hfirst, hrest⟩ pre e post hfs he hbefore
    cases pre with
    | nil =>
      cases hfs
      have hstarted : started := by simpa using hbefore
      exact hfirst ⟨hstarted, he⟩
    | cons g pre =>
      cases hfs
      refine hrest pre e post rfl he ?_
      rcases hbefore with hstarted | ⟨g, hg, hne⟩
      · exact .inl (.inl hstarted)
      · rcases List.mem_cons.1 hg with rfl | hg
        · exact .inl (.inr hne)
        · exact .inr ⟨g, hg, hne⟩

def coalesceAll : List (WgPeer Addr) → Option (List (WgPeer Addr))
  | [] => some []
  | f :: fs => coalesce f true fs

theorem coalesce_same (hkey : p.key = f.key) (hp : p.allowedIps = [] ∨ known = true) :
    coalesce p known (f :: fs) =
      coalesce (p.join f) (p.allowedIps.isEmpty || !f.allowedIps.isEmpty) fs := by
  rw [coalesce, if_neg (by simp [hkey])]
  by_cases hnil : p.allowedIps = []
  · rw [if_pos hnil, hnil]
    rfl
  · have hempty : p.allowedIps.isEmpty = false := by simp [hnil]
    rw [if_neg hnil, if_pos (hp.resolve_left hnil), hempty, Bool.false_or]

theorem coalesce_null (hkey : p.key = f.key) (hp : p.allowedIps ≠ []) :
    coalesce p false (f :: fs) = none := by
  rw [coalesce, if_neg (by simp [hkey]), if_neg hp, if_neg (by decide)]

-- The loop goes through a run as long as the last allowed IP is known, and then on behind it.
theorem coalesce_run {fs rest : List (WgPeer Addr)} {p : WgPeer Addr} {known : Bool}
    (hfs : ∀ f ∈ fs, f.key = p.key) (hrest : ∀ g ∈ rest.head?, g.key ≠ p.key) :
    ((p.allowedIps = [] ∨ known = true ∨ fs = []) ∧ EmptyLast (p.allowedIps ≠ []) fs →
      coalesce p known (fs ++ rest) = (coalesceAll rest).map
        ({ p with allowedIps := p.allowedIps ++ fs.flatMap (·.allowedIps) } :: ·)) ∧
    (¬ ((p.allowedIps = [] ∨ known = true ∨ fs = []) ∧ EmptyLast (p.allowedIps ≠ []) fs) →
      coalesce p known (fs ++ rest) = none) := by
  induction fs generalizing p known with
  | nil =>
    have hfine : EmptyLast (p.allowedIps ≠ []) ([] : List (WgPeer Addr)) := by
      intro pre e post h
      simp at h
    refine ⟨fun _ => ?_, fun h => absurd ⟨.inr (.inr rfl), hfine⟩ h⟩
    cases rest with
    | nil => simp [coalesce, coalesceAll]
    | cons g rest =>
      have hg : p.key ≠ g.key := fun h => hrest g rfl h.symm
      simp [coalesce, coalesceAll, hg]
  | cons f fs ih =>
    rw [List.forall_mem_cons] at hfs
    rw [List.cons_append, emptyLast_cons]
    by_cases hp : p.allowedIps = [] ∨ known = true
    · obtain ⟨hgood, hbad⟩ :=
        @ih (p.join f) (p.allowedIps.isEmpty || !f.allowedIps.isEmpty) hfs.2 hrest
      have hstarted : ((p.join f).allowedIps ≠ []) = (p.allowedIps ≠ [] ∨ f.allowedIps ≠ []) := by
        simp [WgPeer.join, or_iff_not_imp_left]
      have hcond : ((p.join f).allowedIps = [] ∨
          (p.allowedIps.isEmpty || !f.allowedIps.isEmpty) = true ∨ fs = []) ↔
            ((p.allowedIps ≠ [] ∧ f.allowedIps = []) → fs = []) := by
        by_cases hnil : p.allowedIps = [] <;> by_cases hf : f.allowedIps = [] <;>
          simp [WgPeer.join, hnil, hf]
      rw [hstarted, hcond] at hgood hbad
      rw [coalesce_same hfs.1.symm hp]
      constructor
      · rintro ⟨-, hfine⟩
        rw [hgood hfine]
        simp [WgPeer.join]
      · intro h
        exact hbad fun hfine => h ⟨hp.imp_right .inl, hfine⟩
    · -- the last allowed IP of a peer that has some is not known
      rw [not_or] at hp
      have hknown : known = false := eq_false_of_ne_true hp.2
      subst hknown
      exact ⟨fun h => by simp [hp.1] at h, fun _ => coalesce_null hfs.1.symm hp.1⟩

theorem runs_append {rest : List (WgPeer Addr)} (hfs : ∀ f ∈ fs, f.key = p.key)
    (hrest : ∀ g ∈ rest.head?, g.key ≠ p.key) :
    runs (p :: fs ++ rest) = (p :: fs) :: runs rest := by
  have hall : ∀ f ∈ p :: fs, f.key = p.key := List.forall_mem_cons.2 ⟨rfl, hfs⟩
  have hchain : (p :: fs).IsChain fun a b => (a.key == b.key) = true := by
    apply List.Pairwise.isChain
    apply List.pairwise_of_forall_mem_list
    intro a ha b hb
    rw [hall a ha, hall b hb, beq_self_eq_true]
  unfold runs
  rw [List.splitBy_append, List.splitBy_of_isChain (List.cons_ne_nil p fs) hchain]
  · rfl
  · intro a ha g hg
    rw [beq_eq_false_iff_ne, hall a (List.mem_of_mem_getLast? ha)]
    exact fun h => hrest g hg h.symm

theorem coalesceAll_runs (fs : List (WgPeer Addr)) :
    ((∀ run ∈ runs fs, EmptyLast False run) → coalesceAll fs = some (joined fs)) ∧
      (¬ (∀ run ∈ runs fs, EmptyLast False run) → coalesceAll fs = none) := by
  match fs with
  | [] => exact ⟨fun _ => rfl, fun h => absurd (by simp [runs]) h⟩
  | p :: fs =>
    have hsplit : fs.takeWhile (·.key == p.key) ++ fs.dropWhile (·.key == p.key) = fs :=
      List.takeWhile_append_dropWhile
    have hrun : ∀ f ∈ fs.takeWhile (·.key == p.key), f.key = p.key := by
      intro f hf
      simpa using List.mem_takeWhile_imp hf
    have hrest : ∀ g ∈ (fs.dropWhile (·.key == p.key)).head?, g.key ≠ p.key := by
      intro g hg
      simpa using Fields.head_dropWhile _ fs g hg
    have hlen := List.length_dropWhile_le (·.key == p.key) fs
    obtain ⟨ihgood, ihbad⟩ := coalesceAll_runs (fs.dropWhile (·.key == p.key))
    obtain ⟨hgood, hbad⟩ := @coalesce_run Addr _ _ p true hrun hrest
    have hruns := runs_append hrun hrest
    rw [List.cons_append, hsplit] at hruns
    rw [hsplit] at hgood hbad
    have hfirst : EmptyLast False (p :: fs.takeWhile (·.key == p.key)) ↔
        EmptyLast (p.allowedIps ≠ []) (fs.takeWhile (·.key == p.key)) := by
      rw [emptyLast_cons, false_or]
      simp
    have hjoined : joined (p :: fs) =
        { p with allowedIps := p.allowedIps ++ (fs.takeWhile (·.key == p.key)).flatMap (·.allowedIps) }
          :: joined (fs.dropWhile (·.key == p.key)) := by
      unfold joined
      rw [hruns]
      rfl
    rw [hruns, List.forall_mem_cons, hfirst, hjoined]
    constructor
    · rintro ⟨hrunfine, hrestfine⟩
      show coalesce p true fs = _
      rw [hgood ⟨.inr (.inl rfl), hrunfine⟩, ihgood hrestfine]
      rfl
    · intro h
      show coalesce p true fs = none
      by_cases hrunfine : EmptyLast (p.allowedIps ≠ []) (fs.takeWhile (·.key == p.key))
      · rw [hgood ⟨.inr (.inl rfl), hrunfine⟩, ihbad fun hrestfine => h ⟨hrunfine, hrestfine⟩]
        rfl
      · exact hbad fun hfine => hrunfine hfine.2
termination_by fs.length

end Lists

/-! ## The loop in memory -/

section Simulation

variable {Addr : Type} {m m' : Memory Addr} {p : Option Nat} {x : Place Addr} {c : PeerCell Addr}
  {known : Bool}

theorem Place.first_eq {cells : Nat → Option (WgAllowedIp Addr × Option Nat)}
    (h : IsList cells x.cell.firstAllowedip x.ips) : x.cell.firstAllowedip = none ↔ x.ips = [] := by
  rw [h.pointer]
  simp

variable {done rest : List (Place Addr)}

-- What the pointers of a list of places give.
theorem InMemory.cell (h : InMemory m p (done ++ x :: rest)) :
    m.peers x.addr = some (x.cell, rest.head?.map Place.addr) := by
  have hpeers := h.peers
  rw [List.map_append, List.map_cons] at hpeers
  obtain ⟨next, hcell, hnext⟩ := hpeers.cell
  rw [hcell, hnext.pointer, List.head?_map, Option.map_map]
  rfl

theorem InMemory.addr_ne (h : InMemory m p (done ++ x :: rest)) :
    ∀ z ∈ done ++ rest, z.addr ≠ x.addr := by
  have haddrs := h.addrs
  rw [List.map_append, List.map_cons, List.nodup_middle, List.nodup_cons, ← List.map_append] at haddrs
  intro z hz heq
  exact haddrs.1 (heq ▸ List.mem_map_of_mem hz)

variable {y : Place Addr}

theorem InMemory.unlink (h : InMemory m p (done ++ x :: y :: rest))
    (hm' : m'.peers = Function.update (Function.update m.peers x.addr
      (some (c, rest.head?.map Place.addr))) y.addr none)
    (hother : ∀ z ∈ done ++ rest, IsList m'.allowedips z.cell.firstAllowedip z.ips)
    (hips : IsList m'.allowedips c.firstAllowedip (x.ips ++ y.ips)) :
    InMemory m' p (done ++ ⟨x.addr, c, x.ips ++ y.ips⟩ :: rest) := by
  have hx := h.addr_ne
  have hy := (show InMemory m p (done ++ [x] ++ y :: rest) by simpa using h).addr_ne
  rw [List.append_assoc, List.singleton_append, List.forall_mem_append, List.forall_mem_cons] at hy
  rw [List.forall_mem_append, List.forall_mem_cons] at hx
  obtain ⟨hxdone, hyx, hxrest⟩ := hx
  obtain ⟨hydone, hxy, hyrest⟩ := hy
  have hpeers := h.peers
  rw [List.map_append, List.map_cons, List.map_cons] at hpeers
  obtain ⟨-, -, -, next, -, hrest⟩ := hpeers.cell
  have hnext : next = rest.head?.map Place.addr := by
    rw [hrest.pointer, List.head?_map, Option.map_map]
    rfl
  constructor
  · rw [List.map_append, List.map_cons]
    rw [hm']
    refine hpeers.replace ?_ ?_ (hrest.congr ?_)
    · intro cell hcell
      obtain ⟨z, hz, rfl⟩ := List.mem_map.1 hcell
      rw [Function.update_of_ne (hydone z hz), Function.update_of_ne (hxdone z hz)]
    · rw [Function.update_of_ne hxy, Function.update_self, hnext]
    · intro cell hcell
      obtain ⟨z, hz, rfl⟩ := List.mem_map.1 hcell
      rw [Function.update_of_ne (hyrest z hz), Function.update_of_ne (hxrest z hz)]
  · rw [List.forall_mem_append] at hother
    rw [List.forall_mem_append, List.forall_mem_cons]
    exact ⟨hother.1, hips, hother.2⟩
  · refine h.addrs.sublist ?_
    simp
  · have haddrs := h.ipAddrs
    simpa using haddrs

-- The allowed IPs of one peer are not those of another.
theorem InMemory.ips_ne (h : InMemory m p (done ++ x :: rest)) {a : Nat} (ha : a ∈ x.ips.map (·.1)) :
    ∀ z ∈ done ++ rest, ∀ c ∈ z.ips, c.1 ≠ a := by
  have haddrs := h.ipAddrs
  rw [List.flatMap_append, List.flatMap_cons, List.nodup_append_comm, List.append_assoc,
    ← List.flatMap_append, List.nodup_append] at haddrs
  intro z hz c hc heq
  refine haddrs.2.2 a ha c.1 ?_ heq.symm
  rw [List.mem_flatMap]
  rw [List.mem_append, or_comm, ← List.mem_append] at hz
  exact ⟨z, hz, List.mem_map_of_mem hc⟩

theorem InMemory.tail (h : InMemory m p (done ++ x :: rest)) (hx : x.Tailed) (hne : x.ips ≠ []) :
    ∃ init a v, x.ips = init ++ [(a, v)] ∧ x.cell.lastAllowedip = some a ∧
      m.allowedips a = some (v, none) ∧ (∀ c ∈ init, c.1 ≠ a) ∧
        ∀ z ∈ done ++ rest, ∀ c ∈ z.ips, c.1 ≠ a := by
  obtain ⟨init, ⟨a, v⟩, hlast⟩ := (List.eq_nil_or_concat x.ips).resolve_left hne
  rw [List.concat_eq_append] at hlast
  have hips := h.ips x (by simp)
  rw [hlast] at hips
  refine ⟨init, a, v, hlast, ?_, hips.last, ?_, h.ips_ne (by simp [hlast])⟩
  · rw [hx, hlast, List.getLast?_concat]
    rfl
  · intro c hc
    have hnodup : (x.ips.map (·.1)).Nodup := (List.nodup_flatMap.1 h.ipAddrs).1 x (by simp)
    rw [hlast, List.map_append, List.nodup_append] at hnodup
    exact hnodup.2.2 _ (List.mem_map_of_mem hc) a (by simp)

/-- Two peers with the same key become one, if the last allowed IP of the first one is known. -/
theorem absorb_ok (h : InMemory m p (done ++ x :: y :: rest)) (hx : x.ips = [] ∨ x.Tailed) :
    ∃ m' c, absorb m x.addr x.cell y.addr y.cell (rest.head?.map Place.addr) = .ok m' ∧
      m'.firstPeer = m.firstPeer ∧ c.peer = x.cell.peer ∧ c.lastAllowedip = y.cell.lastAllowedip ∧
      InMemory m' p (done ++ ⟨x.addr, c, x.ips ++ y.ips⟩ :: rest) := by
  have hxips := h.ips x (by simp)
  have hyips := h.ips y (by simp)
  have hother : ∀ z ∈ done ++ rest, IsList m.allowedips z.cell.firstAllowedip z.ips := by
    intro z hz
    refine h.ips z ?_
    rw [List.mem_append] at hz ⊢
    simp only [List.mem_cons]
    tauto
  unfold absorb
  by_cases hfirst : x.cell.firstAllowedip = none
  · have hnil := (Place.first_eq hxips).1 hfirst
    rw [if_pos hfirst]
    refine ⟨_, ⟨x.cell.peer, y.cell.firstAllowedip, y.cell.lastAllowedip⟩, rfl, rfl, rfl, rfl,
      h.unlink rfl hother ?_⟩
    rw [hnil]
    exact hyips
  · have hne : x.ips ≠ [] := fun hnil => hfirst ((Place.first_eq hxips).2 hnil)
    obtain ⟨init, a, v, hlast, htail, hcell, hinit, hrest⟩ := h.tail (hx.resolve_left hne) hne
    have hload : load m.allowedips a = .ok (v, none) := load_eq hcell
    rw [hlast] at hxips
    rw [if_neg hfirst, htail]
    simp only [address, hload, Loops.ok_bind]
    refine ⟨_, ⟨x.cell.peer, x.cell.firstAllowedip, y.cell.lastAllowedip⟩, rfl, rfl, rfl, rfl,
      h.unlink rfl ?_ ?_⟩
    · -- the cells of other lists are as before
      intro z hz
      refine (hother z hz).congr fun c hc => Function.update_of_ne (hrest z ?_ c hc) _ _
      rw [List.mem_append] at hz ⊢
      simp only [List.mem_cons]
      tauto
    · rw [hlast, List.append_assoc, List.singleton_append]
      refine hxips.replace ?_ (Function.update_self _ _ _) (hyips.congr ?_)
      · exact fun c hc => Function.update_of_ne (hinit c hc) _ _
      · exact fun c hc => Function.update_of_ne (hrest y (by simp) c hc) _ _

theorem absorb_null {next : Option Nat} (hfirst : x.cell.firstAllowedip ≠ none)
    (hlast : x.cell.lastAllowedip = none) :
    absorb m x.addr x.cell y.addr y.cell next = .error .null := by
  unfold absorb
  rw [if_neg hfirst, hlast]
  rfl

def Place.Known (x : Place Addr) (known : Bool) : Prop :=
  if known then x.Tailed else x.ips ≠ [] ∧ x.cell.lastAllowedip = none

theorem Place.Known.eq_true (h : x.Known known) (hne : x.ips ≠ []) (htailed : x.Tailed) :
    known = true := by
  cases known with
  | true => rfl
  | false =>
    have hnone := htailed.symm.trans h.2
    rw [Option.map_eq_none_iff, List.getLast?_eq_none_iff] at hnone
    exact absurd hnone hne

-- The pointer that is taken over is the last one, but for an empty list behind another.
theorem Place.Known.of_join (hlast : c.lastAllowedip = y.cell.lastAllowedip) (hy : y.Tailed) :
    Place.Known ⟨x.addr, c, x.ips ++ y.ips⟩ (x.ips.isEmpty || !y.ips.isEmpty) := by
  unfold Place.Tailed at hy
  by_cases hxnil : x.ips = []
  · show if (x.ips.isEmpty || !y.ips.isEmpty) = true then _ else _
    rw [if_pos (by simp [hxnil])]
    show c.lastAllowedip = (x.ips ++ y.ips).getLast?.map (·.1)
    rw [hlast, hy, hxnil, List.nil_append]
  · by_cases hynil : y.ips = []
    · show if (x.ips.isEmpty || !y.ips.isEmpty) = true then _ else _
      rw [if_neg (by simp [hxnil, hynil])]
      refine ⟨by simp [hxnil], ?_⟩
      show c.lastAllowedip = none
      rw [hlast, hy, hynil]
      rfl
    · show if (x.ips.isEmpty || !y.ips.isEmpty) = true then _ else _
      rw [if_pos (by simp [hynil])]
      show c.lastAllowedip = (x.ips ++ y.ips).getLast?.map (·.1)
      rw [hlast, hy, List.getLast?_append_of_ne_nil _ hynil]

/-- The loop in memory does what the loop on lists does. -/
theorem coalesceFrom_eq {fuel : Nat} (h : InMemory m p (done ++ x :: rest)) (hx : x.Known known)
    (hrest : ∀ y ∈ rest, y.Tailed) (hfuel : rest.length < fuel) :
    (∀ l, coalesce x.peer known (rest.map Place.peer) = some l →
      ∃ m' xs, coalesceFrom fuel m x.addr = .ok m' ∧ m'.firstPeer = m.firstPeer ∧
        InMemory m' p (done ++ xs) ∧ xs.map Place.peer = l) ∧
      (coalesce x.peer known (rest.map Place.peer) = none →
        coalesceFrom fuel m x.addr = .error .null) := by
  induction rest generalizing done x known fuel m with
  | nil =>
    obtain ⟨fuel, rfl⟩ := Nat.exists_eq_add_one_of_ne_zero (by omega : fuel ≠ 0)
    have hload : load m.peers x.addr = .ok (x.cell, none) := load_eq h.cell
    rw [coalesceFrom, hload]
    constructor
    · intro l hl
      cases hl
      exact ⟨m, [x], rfl, rfl, h, rfl⟩
    · intro hl
      cases hl
  | cons y rest ih =>
    rw [List.length_cons] at hfuel
    obtain ⟨fuel, rfl⟩ := Nat.exists_eq_add_one_of_ne_zero (by omega : fuel ≠ 0)
    have hload : load m.peers x.addr = .ok (x.cell, some y.addr) := load_eq h.cell
    have hnext : InMemory m p (done ++ [x] ++ y :: rest) := by simpa using h
    have hload' : load m.peers y.addr = .ok (y.cell, rest.head?.map Place.addr) :=
      load_eq hnext.cell
    rw [List.forall_mem_cons] at hrest
    rw [coalesceFrom, hload, List.map_cons]
    simp only [Loops.ok_bind, hload']
    by_cases hkey : x.cell.peer.key ≠ y.cell.peer.key
    · -- on to the next peer, whose pointers are those that were read
      rw [if_pos hkey, coalesce, Place.peer_key, Place.peer_key, if_pos hkey]
      obtain ⟨hok, hnull⟩ := ih hnext (show y.Known true from hrest.1) hrest.2 (by omega : _ < fuel)
      constructor
      · intro l hl
        obtain ⟨l', hl', rfl⟩ := Option.map_eq_some_iff.1 hl
        obtain ⟨m', xs, hrun, hfirst, hmemory, rfl⟩ := hok l' hl'
        rw [List.append_assoc] at hmemory
        exact ⟨m', x :: xs, hrun, hfirst, hmemory, rfl⟩
      · intro hl
        exact hnull (Option.map_eq_none_iff.1 hl)
    · have hempty : x.peer.allowedIps = [] ↔ x.ips = [] := List.map_eq_nil_iff
      have hsame : x.peer.key = y.peer.key := not_not.1 hkey
      rw [if_neg hkey]
      by_cases hknown : x.ips = [] ∨ x.Tailed
      · -- one peer of the two, and the loop stays there
        obtain ⟨m₁, c, habsorb, hfirst, hpeer, hlast, hmemory⟩ := absorb_ok h hknown
        have hjoin : Place.peer ⟨x.addr, c, x.ips ++ y.ips⟩ = x.peer.join y.peer := by
          simp [Place.peer, WgPeer.join, hpeer]
        have hknown' : Place.Known ⟨x.addr, c, x.ips ++ y.ips⟩ (x.ips.isEmpty || !y.ips.isEmpty) :=
          Place.Known.of_join hlast hrest.1
        have hstep : x.peer.allowedIps = [] ∨ known = true := by
          by_cases hnil : x.ips = []
          · exact .inl (hempty.2 hnil)
          · exact .inr (hx.eq_true hnil (hknown.resolve_left hnil))
        have hflag : (x.peer.allowedIps.isEmpty || !y.peer.allowedIps.isEmpty) =
            (x.ips.isEmpty || !y.ips.isEmpty) := by
          simp [Place.peer]
        rw [coalesce_same hsame hstep, hflag, ← hjoin, habsorb, Loops.ok_bind, ← hfirst]
        exact ih hmemory hknown' hrest.2 (by omega)
      · -- the pointer to the last allowed IP was overwritten with that of an empty list
        rw [not_or] at hknown
        have hfalse : known = false := by
          cases known with
          | true => exact absurd hx hknown.2
          | false => rfl
        subst hfalse
        have hfirst : x.cell.firstAllowedip ≠ none := fun hnone =>
          hknown.1 ((Place.first_eq (h.ips x (by simp))).1 hnone)
        rw [coalesce_null hsame fun h => hknown.1 (hempty.1 h)]
        refine ⟨fun l hl => (by cases hl), fun _ => ?_⟩
        rw [absorb_null hfirst hx.2]
        rfl

end Simulation

/-! ## Reading the fragments -/

section Building

variable {Addr : Type} {m m' : Memory Addr} {x : Place Addr} {c : PeerCell Addr}

/-- The lists as `parse_peers` leaves them: the pointers to the last elements are right, and new
addresses are not in use. -/
structure Built (m : Memory Addr) (xs : List (Place Addr)) : Prop where
  holds : InMemory m m.firstPeer xs
  lastPeer : m.lastPeer = xs.getLast?.map Place.addr
  tailed : ∀ x ∈ xs, x.Tailed
  addrs : ∀ x ∈ xs, x.addr < m.peerCount
  ips : ∀ x ∈ xs, ∀ c ∈ x.ips, c.1 < m.allowedipCount

variable {xs : List (Place Addr)}

-- Addresses of cells in use differ from a new one.
theorem Built.fresh (h : Built m xs) :
    (∀ x ∈ xs, x.addr ≠ m.peerCount) ∧ ∀ x ∈ xs, ∀ c ∈ x.ips, c.1 ≠ m.allowedipCount := by
  constructor
  · intro x hx
    have hlt := h.addrs x hx
    omega
  · intro x hx c hc
    have hlt := h.ips x hx c hc
    omega

theorem Built.concat (h : Built m xs) (hips : m'.allowedips = m.allowedips)
    (hcount : m'.peerCount = m.peerCount + 1) (hcount' : m'.allowedipCount = m.allowedipCount)
    (hlast : m'.lastPeer = some m.peerCount) (hc : c.firstAllowedip = none ∧ c.lastAllowedip = none)
    (hpeers : IsList m'.peers m'.firstPeer
      (xs.map (fun x => (x.addr, x.cell)) ++ [(m.peerCount, c)])) :
    Built m' (xs ++ [⟨m.peerCount, c, []⟩]) := by
  constructor
  · constructor
    · rw [List.map_append]
      exact hpeers
    · rw [List.forall_mem_append, List.forall_mem_singleton, hips]
      exact ⟨h.holds.ips, hc.1⟩
    · rw [List.map_append, List.nodup_append]
      refine ⟨h.holds.addrs, List.nodup_singleton _, ?_⟩
      intro a ha b hb
      obtain ⟨x, hx, rfl⟩ := List.mem_map.1 ha
      rw [List.mem_singleton.1 hb]
      exact h.fresh.1 x hx
    · have haddrs := h.holds.ipAddrs
      simpa using haddrs
  · rw [List.getLast?_concat, hlast]
    rfl
  · rw [List.forall_mem_append, List.forall_mem_singleton]
    exact ⟨h.tailed, hc.2⟩
  · rw [List.forall_mem_append, List.forall_mem_singleton, hcount]
    exact ⟨fun x hx => Nat.lt_succ_of_lt (h.addrs x hx), Nat.lt_succ_self _⟩
  · rw [List.forall_mem_append, List.forall_mem_singleton, hcount']
    exact ⟨h.ips, by simp⟩

theorem linkPeer_built (h : Built m xs) (f : WgPeer Addr) :
    ∃ m', linkPeer m f = .ok m' ∧
      Built m' (xs ++ [⟨m.peerCount, { peer := { f with allowedIps := [] } }, []⟩]) := by
  have hpeers := h.holds.peers
  unfold linkPeer
  rcases List.eq_nil_or_concat xs with rfl | ⟨init, z, rfl⟩
  · -- the first peer
    have hfirst : m.firstPeer = none := hpeers
    simp only [if_pos hfirst]
    refine ⟨_, rfl, h.concat rfl rfl rfl rfl ⟨rfl, rfl⟩ ?_⟩
    exact ⟨rfl, none, Function.update_self _ _ _, rfl⟩
  · rw [List.concat_eq_append] at h hpeers ⊢
    have hz : z.addr ≠ m.peerCount := h.fresh.1 z (by simp)
    have hlast : m.lastPeer = some z.addr := by
      rw [h.lastPeer, List.getLast?_concat]
      rfl
    have hfirst : m.firstPeer ≠ none := by
      rw [hpeers.pointer]
      simp
    have hcell : m.peers z.addr = some (z.cell, none) := h.holds.cell
    have hload : load (Function.update m.peers m.peerCount
        (some ({ peer := { f with allowedIps := [] } }, none))) z.addr = .ok (z.cell, none) :=
      load_eq (by rw [Function.update_of_ne hz, hcell])
    simp only [if_neg hfirst, hlast, address, Loops.ok_bind, hload]
    refine ⟨_, rfl, h.concat rfl rfl rfl rfl ⟨rfl, rfl⟩ ?_⟩
    rw [List.map_append, List.append_assoc]
    rw [List.map_append] at hpeers
    refine hpeers.replace ?_ (Function.update_self _ _ _) ⟨rfl, none, ?_, rfl⟩
    · intro cell hcell
      obtain ⟨x, hx, rfl⟩ := List.mem_map.1 hcell
      have hne : x.addr ≠ z.addr := h.holds.addr_ne x (by simp [hx])
      exact (Function.update_of_ne hne _ _).trans
        (Function.update_of_ne (h.fresh.1 x (by simp [hx])) _ _)
    · exact (Function.update_of_ne (Ne.symm hz) _ _).trans (Function.update_self _ _ _)

theorem Built.append {ip : WgAllowedIp Addr} (h : Built m (xs ++ [x]))
    (hpeers : m'.peers = Function.update m.peers x.addr (some (c, none)))
    (hfirst : m'.firstPeer = m.firstPeer) (hlast : m'.lastPeer = m.lastPeer)
    (hcount : m'.peerCount = m.peerCount) (hcount' : m'.allowedipCount = m.allowedipCount + 1)
    (hother : ∀ z ∈ xs, IsList m'.allowedips z.cell.firstAllowedip z.ips)
    (hips : IsList m'.allowedips c.firstAllowedip (x.ips ++ [(m.allowedipCount, ip)]))
    (hc : c.lastAllowedip = some m.allowedipCount) :
    Built m' (xs ++ [⟨x.addr, c, x.ips ++ [(m.allowedipCount, ip)]⟩]) := by
  have hold := h.holds.peers
  rw [List.map_append] at hold
  constructor
  · constructor
    · rw [hpeers, hfirst, List.map_append]
      refine hold.replace ?_ (Function.update_self _ _ _) rfl
      intro cell hcell
      obtain ⟨z, hz, rfl⟩ := List.mem_map.1 hcell
      exact Function.update_of_ne (h.holds.addr_ne z (by simp [hz])) _ _
    · rw [List.forall_mem_append, List.forall_mem_singleton]
      exact ⟨hother, hips⟩
    · have haddrs := h.holds.addrs
      rw [List.map_append] at haddrs ⊢
      exact haddrs
    · have haddrs := h.holds.ipAddrs
      have hnew : ∀ a ∈ (xs ++ [x]).flatMap fun z => z.ips.map (·.1), a ≠ m.allowedipCount := by
        intro a ha
        obtain ⟨z, hz, ha⟩ := List.mem_flatMap.1 ha
        obtain ⟨cell, hcell, rfl⟩ := List.mem_map.1 ha
        exact h.fresh.2 z hz cell hcell
      have hlist : ((xs ++ [(⟨x.addr, c, x.ips ++ [(m.allowedipCount, ip)]⟩ : Place Addr)]).flatMap
          fun z => z.ips.map (·.1)) =
          ((xs ++ [x]).flatMap fun z => z.ips.map (·.1)) ++ [m.allowedipCount] := by
        simp
      rw [hlist, List.nodup_append]
      refine ⟨haddrs, List.nodup_singleton _, ?_⟩
      intro a ha b hb
      rw [List.mem_singleton.1 hb]
      exact hnew a ha
  · have hpointer := h.lastPeer
    rw [List.getLast?_concat] at hpointer ⊢
    rw [hlast, hpointer]
    rfl
  · have htailed := h.tailed
    rw [List.forall_mem_append, List.forall_mem_singleton] at htailed ⊢
    refine ⟨htailed.1, ?_⟩
    show c.lastAllowedip = (x.ips ++ [(m.allowedipCount, ip)]).getLast?.map (·.1)
    rw [hc, List.getLast?_concat]
    rfl
  · have haddrs := h.addrs
    rw [List.forall_mem_append, List.forall_mem_singleton] at haddrs ⊢
    rw [hcount]
    exact haddrs
  · have hlt := h.ips
    rw [List.forall_mem_append, List.forall_mem_singleton] at hlt ⊢
    rw [hcount', List.forall_mem_append, List.forall_mem_singleton]
    refine ⟨fun z hz cell hcell => Nat.lt_succ_of_lt (hlt.1 z hz cell hcell),
      fun cell hcell => Nat.lt_succ_of_lt (hlt.2 cell hcell), Nat.lt_succ_self _⟩

theorem parseAllowedips_built (h : Built m (xs ++ [x])) (ip : WgAllowedIp Addr) :
    ∃ m' c new, parseAllowedips x.addr m ip = .ok m' ∧ c.peer = x.cell.peer ∧
      Built m' (xs ++ [⟨x.addr, c, x.ips ++ [(new, ip)]⟩]) := by
  have hxips := h.holds.ips x (by simp)
  have hload : load m.peers x.addr = .ok (x.cell, none) := load_eq h.holds.cell
  unfold parseAllowedips
  simp only [hload, Loops.ok_bind]
  by_cases hfirst : x.cell.firstAllowedip = none
  · have hnil := (Place.first_eq hxips).1 hfirst
    rw [if_pos hfirst]
    refine ⟨_, ⟨x.cell.peer, some m.allowedipCount, some m.allowedipCount⟩, m.allowedipCount, rfl,
      rfl, h.append rfl rfl rfl rfl rfl ?_ ?_ rfl⟩
    · intro z hz
      refine (h.holds.ips z (by simp [hz])).congr ?_
      intro cell hcell
      exact Function.update_of_ne (h.fresh.2 z (by simp [hz]) cell hcell) _ _
    · rw [hnil]
      exact ⟨rfl, none, Function.update_self _ _ _, rfl⟩
  · have hne : x.ips ≠ [] := fun hnil => hfirst ((Place.first_eq hxips).2 hnil)
    obtain ⟨init, a, v, hlast, htail, hcell, hinit, hrest⟩ := h.holds.tail (h.tailed x (by simp)) hne
    have ha : a ≠ m.allowedipCount := h.fresh.2 x (by simp) (a, v) (by simp [hlast])
    have hload' : load (Function.update m.allowedips m.allowedipCount (some (ip, none))) a =
        .ok (v, none) :=
      load_eq (by rw [Function.update_of_ne ha, hcell])
    -- a cell that is neither the last one nor the new one
    have hkept : ∀ b, b ≠ a → b ≠ m.allowedipCount → Function.update (Function.update m.allowedips
        m.allowedipCount (some (ip, none))) a (some (v, some m.allowedipCount)) b = m.allowedips b := by
      intro b hba hbnew
      rw [Function.update_of_ne hba, Function.update_of_ne hbnew]
    rw [if_neg hfirst, htail]
    simp only [address, Loops.ok_bind, hload']
    refine ⟨_, ⟨x.cell.peer, x.cell.firstAllowedip, some m.allowedipCount⟩, m.allowedipCount, rfl,
      rfl, h.append rfl rfl rfl rfl rfl ?_ ?_ rfl⟩
    · intro z hz
      refine (h.holds.ips z (by simp [hz])).congr fun cell hcell => ?_
      exact hkept _ (hrest z (by simp [hz]) cell hcell) (h.fresh.2 z (by simp [hz]) cell hcell)
    · rw [hlast] at hxips ⊢
      rw [List.append_assoc, List.singleton_append]
      refine hxips.replace ?_ (Function.update_self _ _ _) ⟨rfl, none, ?_, rfl⟩
      · intro cell hcell
        exact hkept _ (hinit cell hcell) (h.fresh.2 x (by simp) cell (by simp [hlast, hcell]))
      · exact (Function.update_of_ne (Ne.symm ha) _ _).trans (Function.update_self _ _ _)

theorem parsePeer_built (h : Built m xs) (f : WgPeer Addr) :
    ∃ m' x, parsePeer m f = .ok m' ∧ x.peer = f ∧ Built m' (xs ++ [x]) := by
  -- the allowed IPs that are read so far are those of the new peer
  have hips : ∀ {ips : List (WgAllowedIp Addr)} {m : Memory Addr} {x : Place Addr},
      Built m (xs ++ [x]) → ∃ m' x', ips.foldlM (parseAllowedips x.addr) m = .ok m' ∧
        x'.peer = { x.peer with allowedIps := x.peer.allowedIps ++ ips } ∧ Built m' (xs ++ [x']) := by
    intro ips
    induction ips with
    | nil =>
      intro m x hx
      exact ⟨m, x, rfl, by simp, hx⟩
    | cons ip ips ih =>
      intro m x hx
      obtain ⟨m₁, c, new, hstep, hpeer, hm₁⟩ := parseAllowedips_built hx ip
      obtain ⟨m', x', hrun, hx', hm'⟩ := ih hm₁
      refine ⟨m', x', ?_, ?_, hm'⟩
      · rw [List.foldlM_cons, hstep]
        exact hrun
      · rw [hx']
        simp [Place.peer, hpeer]
  obtain ⟨m₁, hlink, hm₁⟩ := linkPeer_built h f
  obtain ⟨m', x, hrun, hx, hm'⟩ := @hips f.allowedIps _ _ hm₁
  refine ⟨m', x, ?_, ?_, hm'⟩
  · unfold parsePeer
    rw [hlink]
    exact hrun
  · rw [hx]
    rfl

theorem parsePeers_built (fs : List (WgPeer Addr)) :
    ∃ m xs, parsePeers fs = .ok m ∧ xs.map Place.peer = fs ∧ Built m xs := by
  have hrun : ∀ {fs : List (WgPeer Addr)} {m : Memory Addr} {xs : List (Place Addr)}, Built m xs →
      ∃ m' xs', fs.foldlM parsePeer m = .ok m' ∧ xs'.map Place.peer = xs.map Place.peer ++ fs ∧
        Built m' xs' := by
    intro fs
    induction fs with
    | nil =>
      intro m xs h
      exact ⟨m, xs, rfl, by simp, h⟩
    | cons f fs ih =>
      intro m xs h
      obtain ⟨m₁, x, hstep, rfl, hm₁⟩ := parsePeer_built h f
      obtain ⟨m', xs', hrest, hxs', hm'⟩ := ih hm₁
      refine ⟨m', xs', ?_, by rw [hxs']; simp, hm'⟩
      rw [List.foldlM_cons, hstep]
      exact hrest
  have hempty : Built ({} : Memory Addr) [] := by
    constructor
    · exact ⟨rfl, by simp, List.nodup_nil, List.nodup_nil⟩
    · rfl
    · simp
    · simp
    · simp
  exact hrun hempty

end Building

/-! ## The result -/

section

variable {Addr : Type}

def readPeers (fuel : Nat) (fs : List (WgPeer Addr)) : Except Stop (Memory Addr) :=
  parsePeers fs >>= coalescePeers fuel

theorem readPeers_eq (fs : List (WgPeer Addr)) (extra : Nat) :
    (∀ l, coalesceAll fs = some l → ∃ m, readPeers (fs.length + extra) fs = .ok m ∧ m.Lists l) ∧
      (coalesceAll fs = none → readPeers (fs.length + extra) fs = .error .null) := by
  obtain ⟨m, xs, hparse, rfl, hbuilt⟩ := parsePeers_built fs
  unfold readPeers
  rw [hparse, Loops.ok_bind]
  unfold coalescePeers
  have hpointer := hbuilt.holds.peers.pointer
  cases xs with
  | nil =>
    rw [hpointer]
    refine ⟨fun l hl => ?_, fun hl => by cases hl⟩
    cases hl
    exact ⟨m, rfl, [], hbuilt.holds, rfl⟩
  | cons x xs =>
    have htailed := hbuilt.tailed
    rw [List.forall_mem_cons] at htailed
    have hmemory : InMemory m m.firstPeer ([] ++ x :: xs) := hbuilt.holds
    obtain ⟨hok, hnull⟩ := coalesceFrom_eq hmemory (show x.Known true from htailed.1) htailed.2
      (show xs.length < ((x :: xs).map Place.peer).length + extra by simp; omega)
    rw [hpointer]
    refine ⟨fun l hl => ?_, hnull⟩
    obtain ⟨m', xs', hrun, hfirst, hm', hxs'⟩ := hok l hl
    refine ⟨m', hrun, xs', ?_, hxs'⟩
    rw [hfirst]
    exact hm'

/-- The fragments of a peer: the first one has its settings, and all together have its allowed
IPs. -/
structure Fragments (p : WgPeer Addr) (fs : List (WgPeer Addr)) : Prop where
  keys : ∀ f ∈ fs, f.key = p.key
  joins : joinRun fs = some p

theorem Fragments.exists_cons {p : WgPeer Addr} {fs : List (WgPeer Addr)} (h : Fragments p fs) :
    ∃ f rest, fs = f :: rest ∧ f.key = p.key := by
  cases fs with
  | nil => cases h.joins
  | cons f rest => exact ⟨f, rest, rfl, h.keys f List.mem_cons_self⟩

theorem joined_fragments {ps : List (WgPeer Addr)} {parts : List (List (WgPeer Addr))}
    (hparts : List.Forall₂ Fragments ps parts) (hps : ps.IsChain fun p q => p.key ≠ q.key) :
    joined parts.flatten = ps := by
  induction hparts with
  | nil => rfl
  | @cons p part ps parts hp hrest ih =>
    obtain ⟨f, rest, rfl, hf⟩ := hp.exists_cons
    have hkeys : ∀ g ∈ rest, g.key = f.key := by
      intro g hg
      rw [hf, hp.keys g (List.mem_cons_of_mem f hg)]
    -- the fragments behind those of a peer begin with one of the next peer
    have hnext : ∀ g ∈ parts.flatten.head?, g.key ≠ f.key := by
      intro g hg
      cases hrest with
      | nil => cases hg
      | @cons q part' ps parts hq _ =>
        obtain ⟨f', rest', rfl, hf'⟩ := hq.exists_cons
        rw [List.flatten_cons, List.cons_append, List.head?_cons] at hg
        cases hg
        rw [hf, hf']
        exact fun h => (List.isChain_cons_cons.1 hps).1 h.symm
    have hruns := runs_append hkeys hnext
    unfold joined at ih ⊢
    rw [List.flatten_cons, hruns, List.filterMap_cons_some hp.joins, ih hps.tail]

/-- Reading the fragments and joining them gives each maximal run of fragments with one key as one
peer, and no access to `NULL`, if and only if in each run a fragment without allowed IPs that follows
one with some is the last; and what the runs are joined to are the peers, where the fragments are
those of peers with different keys next to each other. -/
theorem readPeers_joins_iff (fs : List (WgPeer Addr)) (extra : Nat) :
    ((∃ m, readPeers (fs.length + extra) fs = .ok m ∧ m.Lists (joined fs)) ↔
      ∀ run ∈ runs fs, EmptyLast False run) ∧
    ∀ ps parts, fs = parts.flatten → List.Forall₂ Fragments ps parts →
      (ps.IsChain fun p q => p.key ≠ q.key) → joined fs = ps := by
  obtain ⟨hgood, hbad⟩ := coalesceAll_runs fs
  obtain ⟨hok, hnull⟩ := readPeers_eq fs extra
  refine ⟨⟨?_, fun hfine => hok _ (hgood hfine)⟩, ?_⟩
  · rintro ⟨m, hrun, -⟩
    by_contra hfine
    rw [hnull (hbad hfine)] at hrun
    cases hrun
  · rintro ps parts rfl hparts hps
    exact joined_fragments hparts hps

/-- A peer and its two fragments. -/
theorem readPeers_joins_two :
    (joined [({ publicKey := some zeroKey, allowedIps := [⟨.inet, false, 32⟩] } : WgPeer Bool),
        { publicKey := some zeroKey, allowedIps := [⟨.inet6, true, 128⟩] }] =
      [{ publicKey := some zeroKey, allowedIps := [⟨.inet, false, 32⟩, ⟨.inet6, true, 128⟩] }]) := by
  refine (readPeers_joins_iff _ 0).2 _ [[_, _]] rfl (.cons ⟨?_, rfl⟩ .nil) (.singleton _)
  intro f hf
  rcases List.mem_pair.1 hf with rfl | rfl <;> rfl

def threeFragments : List (WgPeer Bool) :=
  [{ publicKey := some zeroKey, allowedIps := [⟨.inet, false, 32⟩] },
    { publicKey := some zeroKey },
    { publicKey := some zeroKey, allowedIps := [⟨.inet6, true, 128⟩] }]

/-- `NULL` is followed. -/
theorem threeFragments_null : readPeers 3 threeFragments = .error .null := rfl

end

end Amnezia.Tools

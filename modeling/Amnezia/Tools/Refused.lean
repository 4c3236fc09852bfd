import Amnezia.Tools.Setconf

/-!
# A request that is refused

`userspace_set_device` writes a request while it goes through the peers, and gives up at the first
peer with `HAS_AWG`.  What has been written by then is in the buffer of a stream, and `fclose`
delivers it.
-/

namespace Amnezia.Tools

open Libc (Bytes)

section

variable {Addr P : Type} {names : Namer Addr}

def WgDevice.Refused (d : WgDevice Addr) : Prop := ∃ p ∈ d.peers, p.awg.isSome = true

-- The lines of the peers before the one that is refused, and the first line of that one.
theorem peersFields_refused {before : List (WgPeer Addr)} (hbefore : ∀ q ∈ before, q.awg = none)
    {p : WgPeer Addr} (hp : p.awg.isSome = true) (after : List (WgPeer Addr)) :
    peersFields names (before ++ p :: after) =
      (before.flatMap (peerFields names) ++ [("public_key", keyToHex p.key)], false) := by
  induction before with
  | nil => exact if_pos hp
  | cons q before ih =>
    obtain ⟨hq, hbefore⟩ := List.forall_mem_cons.1 hbefore
    have hq : ¬ q.awg.isSome = true := by rw [hq]; decide
    rw [List.cons_append, peersFields, if_neg hq, ih hbefore]
    simp

theorem WgDevice.Refused.split {d : WgDevice Addr} (h : d.Refused) :
    ∃ before p after, d.peers = before ++ p :: after ∧ (∀ q ∈ before, q.awg = none) ∧
      p.awg.isSome = true := by
  obtain ⟨p, hp, hawg⟩ := h
  have hnot : ¬ ∀ q ∈ d.peers, q.awg = none := by
    intro hall
    rw [hall p hp] at hawg
    cases hawg
  obtain ⟨before, q, after, hpeers, hbefore, hq⟩ := Loops.exists_first hnot
  exact ⟨before, q, after, hpeers, hbefore, Option.isSome_iff_ne_none.2 hq⟩

/-- What is delivered of a request that is refused: the lines of the device, those of the peers
before the one that is refused, and the first line of that one. -/
theorem userspaceSetDevice_refused {d : WgDevice Addr} (h : d.Refused) :
    ∃ before p after, d.peers = before ++ p :: after ∧ p.awg.isSome = true ∧
      userspaceSetDevice names d = "set=1\n".toList ++
        (deviceFields d ++ before.flatMap (peerFields names) ++
          [("public_key", keyToHex p.key)]).flatMap (fun f => UapiField.line f ++ ['\n']) := by
  obtain ⟨before, p, after, hpeers, hbefore, hp⟩ := h.split
  refine ⟨before, p, after, hpeers, hp, ?_⟩
  unfold userspaceSetDevice setFields
  rw [hpeers, peersFields_refused hbefore hp after, if_neg Bool.false_ne_true, List.append_nil,
    ← List.append_assoc]

/-- A device that is refused leaves nothing of its request with the daemon, and the daemon's
configuration as it was, exactly when it is not refused at all.  A field of the daemon is left as it
was, whatever it was, exactly when the device does not have it. -/
theorem refused_untouched_iff (names : Namer Addr) (peerLine : P → UapiField → P) (noPeers : P)
    (r : Running P) (d : WgDevice Addr) :
    ((d.Refused → userspaceSetDevice names d = [] ∧
      r.setAll peerLine noPeers (setFields names d) = r) ↔ ¬ d.Refused) ∧
    (d.Refused → ∃ before p after, d.peers = before ++ p :: after ∧ p.awg.isSome = true ∧
      userspaceSetDevice names d = "set=1\n".toList ++
        (deviceFields d ++ before.flatMap (peerFields names) ++
          [("public_key", keyToHex p.key)]).flatMap (fun f => UapiField.line f ++ ['\n'])) ∧
    ∀ key, (∀ s : Running P, (s.setAll peerLine noPeers (setFields names d)).field key = s.field key) ↔
      d.isSet key = false := by
  refine ⟨⟨fun h hrefused => ?_, fun h hrefused => absurd hrefused h⟩, userspaceSetDevice_refused,
    fun key => ⟨fun hall => ?_, fun hnot s => ?_⟩⟩
  · obtain ⟨before, p, after, -, -, hwritten⟩ := @userspaceSetDevice_refused _ names _ hrefused
    rw [(h hrefused).1] at hwritten
    cases hwritten
  · -- a field that is set does not depend on what was there before
    by_contra hset
    have hnames : Names (setFields names d) key := names_setFields.2 (by simpa using hset)
    have hsame := @Running.setAll_field P peerLine noPeers key _
      ⟨fun _ => [], noPeers⟩ ⟨fun _ => ['0'], noPeers⟩ (.inl hnames)
    rw [hall, hall] at hsame
    cases hsame
  · exact Running.setAll_frame fun hnames => by simp [names_setFields.1 hnames] at hnot

end

def refusedDevice : WgDevice Bool :=
  { uint := fun p => if p = .junkPacketCount then some 5 else none
    peers := [{}, { awg := some true }] }

/-- The daemon takes over Jc from a request that is refused. -/
theorem refusedDevice_changes_jc :
    refusedDevice.Refused ∧
      ((⟨fun _ => ['9'], ()⟩ : Running Unit).setAll (fun _ _ => ()) ()
        (setFields noNamer refusedDevice)).field (.uint .junkPacketCount) = ['5'] := by
  refine ⟨⟨{ awg := some true }, by simp [refusedDevice], rfl⟩, ?_⟩
  decide

end Amnezia.Tools

import Amnezia.Tools.CoalescePeers
import Amnezia.Tools.GetDevice
import Amnezia.Tools.KernelBuffer
import Amnezia.Tools.Setconf
import Amnezia.Tools.Showconf

/-!
# The strings that are formatted

A string of a device is there twice, as a flag and as a pointer.  Four readers set them: the file,
the command line, the answer of a userspace device and the answer of the kernel; the parser that the
first two share sets the flag with a `NULL` pointer for an empty value.  The writers look at the flag,
and `ugly_print` looks at neither.
-/

namespace Amnezia.Tools

open Crypto (Key)
open Libc (Bytes)

section Netlink

variable {Addr : Type}

/-- An attribute of the device with its payload; the peers are those that `parse_peers` read. -/
inductive DeviceAttribute (Addr : Type) where
  | privateKey (payload : Bytes)
  | listenPort (payload : Bytes)
  | fwmark (payload : Bytes)
  | uint (p : UintParameter) (payload : Bytes)
  | string (p : StringParameter) (payload : Bytes)
  | peers (fs : List (WgPeer Addr))
  /-- `WGDEVICE_A_IFNAME` and the like, which are no fields here. -/
  | other

def StringParameter.ofAttribute (p : StringParameter) (payload : Bytes) : Option Bytes :=
  if p.isHeader then getMagicHeader payload else getNulString payload

/-- `parse_device`; an attribute that is not valid is passed over.  The source sets no flag for the
port and the mark; what shows them looks at their values only. -/
def parseDevice (d : WgDevice Addr) : DeviceAttribute Addr → WgDevice Addr
  | .privateKey payload =>
    if h : payload.length = 32 then
      { d with privateKey := some ⟨payload.map Libc.code, by rw [List.length_map, h]⟩ }
    else d
  | .listenPort payload =>
    if mnlAttrValidate payload .u16 then { d with listenPort := some (mnlAttrGetU16 payload) } else d
  | .fwmark payload =>
    if mnlAttrValidate payload .u32 then { d with fwmark := some (mnlAttrGetU32 payload) } else d
  | .uint p payload =>
    if mnlAttrValidate payload .u16 then
      { d with uint := Function.update d.uint p (some (mnlAttrGetU16 payload)) }
    else d
  | .string p payload =>
    match p.ofAttribute payload with
    | some s => { d with string := Function.update d.string p (some (some s)) }
    | none => d
  | .peers fs => { d with peers := d.peers ++ fs }
  | .other => d

end Netlink

abbrev Assignment := StringParameter × Option Bytes

def assignAll (strings : StringParameter → Option (Option Bytes)) (as : List Assignment) :
    StringParameter → Option (Option Bytes) :=
  as.foldl (fun f a => Function.update f a.1 (some a.2)) strings

def lastAssigned (as : List Assignment) (p : StringParameter) : Option (Option Bytes) :=
  ((as.filter (·.1 = p)).getLast?).map (·.2)

theorem assignAll_append (strings : StringParameter → Option (Option Bytes)) (as bs : List Assignment) :
    assignAll strings (as ++ bs) = assignAll (assignAll strings as) bs := List.foldl_append

theorem foldl_assigns {α : Type} (assigns : α → List Assignment) (l : List α)
    (strings : StringParameter → Option (Option Bytes)) :
    assignAll strings (l.flatMap assigns) = l.foldl (fun s a => assignAll s (assigns a)) strings := by
  unfold assignAll
  rw [List.foldl_flatMap]

theorem assignAll_eq (as : List Assignment) (p : StringParameter) :
    assignAll (fun _ => none) as p = lastAssigned as p := by
  induction as using List.reverseRecOn with
  | nil => rfl
  | append_singleton as a ih =>
    rw [assignAll_append]
    show Function.update (assignAll (fun _ => none) as) a.1 (some a.2) p = _
    unfold lastAssigned at ih ⊢
    by_cases hp : p = a.1
    · subst hp
      rw [Function.update_self, List.filter_append, List.filter_cons_of_pos (by simp),
        List.filter_nil, List.getLast?_concat]
      rfl
    · have hne : a.1 ≠ p := fun h => hp h.symm
      rw [Function.update_of_ne hp, ih, List.filter_append, List.filter_cons_of_neg (by simpa using hne),
        List.filter_nil, List.append_nil]

def stored (value : Bytes) : Option Bytes := if value = [] then none else some value

def DeviceKey.assigns (key : DeviceKey) (s : Option Bytes) : List Assignment :=
  match key with
  | .string p => [(p, s)]
  | _ => []

def fileAssigns (input : Bytes) : List Assignment :=
  match keyMatch deviceKeys (cleanConfigLine input) with
  | some (key, value) => key.assigns (stored value)
  | none => []

def commandAssigns : List Bytes → List Assignment
  | arg :: value :: args =>
    if arg = "peer".toList then []
    else (match fieldKey cmdDeviceKeys arg with
      | some key => key.assigns (stored value)
      | none => []) ++ commandAssigns args
  | _ => []

def replyAssigns : List Bytes → List Assignment
  | [] => []
  | line :: lines =>
    if line = ['\n'] ∨ keyOfLine line = "public_key".toList then []
    else (match fieldKey uapiDeviceKeys (keyOfLine line) with
      | some key => key.assigns (some (valueOfLine line))
      | none => []) ++ replyAssigns lines

def attributeAssigns {Addr : Type} : DeviceAttribute Addr → List Assignment
  | .string p payload => (p.ofAttribute payload).toList.map fun s => (p, some s)
  | _ => []

inductive Source (Addr : Type) where
  | file (append : Bool) (config : Bytes)
  | command (argv : List Bytes)
  | reply (text : Bytes)
  | netlink (attrs : List (DeviceAttribute Addr))

def Source.assigns {Addr : Type} : Source Addr → List Assignment
  | .file _ config => ((Libc.getlines config).map Libc.cstr).flatMap fileAssigns
  | .command argv => commandAssigns argv
  | .reply text => replyAssigns (replyLines text)
  | .netlink attrs => attrs.flatMap attributeAssigns

def Source.Gives {Addr : Type} (sys : Resolver Addr) (files : Bytes → Option Bytes) :
    Source Addr → WgDevice Addr → Prop
  | .file append config, d => configRead sys append config = .ok d
  | .command argv, d => configReadCmd sys files {} argv = .ok d
  | .reply text, d => userspaceGetDevice sys text = .ok d
  | .netlink attrs, d => attrs.foldl parseDevice {} = d

section Readers

variable {Addr : Type} {sys : Resolver Addr} {files : Bytes → Option Bytes} {d : WgDevice Addr}

variable {value : Bytes}

theorem parseAwgString_eq_ok {s : Option Bytes} (h : parseAwgString value = .ok s) :
    s = stored value := by
  unfold parseAwgString at h
  unfold stored
  split at h
  · next hnil =>
    cases h
    rw [if_pos hnil]
  · next hnil =>
    split at h
    · cases h
    · cases h
      rw [if_neg hnil]

variable {d' : WgDevice Addr} {key : DeviceKey}

theorem WgDevice.setKey_assigns (h : d.setKey sys key value = .ok d') :
    d'.string = assignAll d.string (key.assigns (stored value)) := by
  cases key with
  | listenPort | fwMark | privateKey | uint =>
    obtain ⟨_, _, rfl⟩ := map_eq_ok h
    rfl
  | string p =>
    obtain ⟨s, hs, rfl⟩ := map_eq_ok h
    rw [parseAwgString_eq_ok hs]
    rfl

theorem WgDevice.getField_assigns (h : d.getField key value = some d') :
    d'.string = assignAll d.string (key.assigns (some value)) := by
  cases key with
  | listenPort | fwMark | privateKey | uint =>
    obtain ⟨_, _, rfl⟩ := Option.map_eq_some_iff.1 h
    rfl
  | string p =>
    cases h
    rfl

/-! ### A file -/

theorem configReadLine_assigns {ctx ctx' : ConfigCtx Addr} {input : Bytes}
    (h : configReadLine sys ctx input = .ok ctx') :
    ctx'.device.string = assignAll ctx.device.string (fileAssigns input) := by
  have hnone : keyMatch deviceKeys (cleanConfigLine input) = none → fileAssigns input = [] := by
    intro hnone
    unfold fileAssigns
    rw [hnone]
  obtain ⟨hclean, rfl⟩ | hline := configReadLine_step h
  · rw [hnone (by rw [hclean]; decide)]
    rfl
  · cases hline with
    | interface hline =>
      rw [hnone (keyMatch_header (by decide) hline)]
      rfl
    | peer hline =>
      rw [hnone (keyMatch_header (by decide) hline)]
      rfl
    | deviceKey key value d hkey hset =>
      unfold fileAssigns
      rw [hkey]
      exact WgDevice.setKey_assigns hset
    | peerKey key value done p p' hkey hpeers hset =>
      rw [hnone (keyMatch_peerKey hkey)]
      rfl

theorem configRead_assigns {append : Bool} {config : Bytes}
    (h : configRead sys append config = .ok d) :
    d.string = assignAll (fun _ => none)
      (((Libc.getlines config).map Libc.cstr).flatMap fileAssigns) := by
  obtain ⟨ctx, hlines, hfinish⟩ := Loops.bind_eq_ok.1 h
  have hstring := Loops.foldlM_view (fun ctx : ConfigCtx Addr => ctx.device.string)
    (fun strings input => assignAll strings (fileAssigns input))
    (fun _ _ _ hread => configReadLine_assigns hread) hlines
  have hinit : (configReadInit append : ConfigCtx Addr).device.string = fun _ => none := by
    cases append <;> rfl
  unfold configReadFinish at hfinish
  split at hfinish
  · cases hfinish
    rw [hstring, hinit]
    exact (foldl_assigns _ _ _).symm
  · cases hfinish

/-! ### A command -/

theorem WgDevice.setArgument_assigns (h : d.setArgument sys files key value = .ok d') :
    d'.peers = d.peers ∧ d'.string = assignAll d.string (key.assigns (stored value)) := by
  by_cases hkey : key = .privateKey
  · subst hkey
    obtain ⟨_, _, rfl⟩ := map_eq_ok h
    exact ⟨rfl, rfl⟩
  · have hset : d.setKey sys key value = .ok d' := by
      cases key with
      | privateKey => exact absurd rfl hkey
      | _ => exact h
    exact ⟨(WgDevice.setKey_peers hset).1, WgDevice.setKey_assigns hset⟩

theorem updateLastPeer_eq_ok {f : WgPeer Addr → Except Failure (WgPeer Addr)}
    (h : updateLastPeer d f = .ok d') : d.peers ≠ [] ∧ d'.peers ≠ [] ∧ d'.string = d.string := by
  unfold updateLastPeer at h
  split at h
  · cases h
  · next p hlast =>
    obtain ⟨done, hpeers⟩ := List.getLast?_eq_some_iff.1 hlast
    obtain ⟨p', _, rfl⟩ := map_eq_ok h
    rw [hpeers, List.modifyLast_concat]
    exact ⟨by simp, by simp, rfl⟩

theorem readArgument_assigns {arg : Bytes} (h : readArgument sys files d arg value = .ok d') :
    (d'.peers ≠ [] ∧ d'.string = d.string ∧ (d.peers ≠ [] ∨ arg = "peer".toList)) ∨
      (d.peers = [] ∧ d'.peers = [] ∧ arg ≠ "peer".toList ∧
        ∃ key, fieldKey cmdDeviceKeys arg = some key ∧
          d'.string = assignAll d.string (key.assigns (stored value))) := by
  unfold readArgument at h
  split at h
  · next key hkey =>
    right
    by_cases hpeers : d.peers = []
    · rw [if_pos hpeers] at hkey
      obtain ⟨hsame, hstring⟩ := WgDevice.setArgument_assigns h
      refine ⟨hpeers, hsame.trans hpeers, ?_, key, hkey, hstring⟩
      rintro rfl
      rw [show fieldKey cmdDeviceKeys "peer".toList = none by decide] at hkey
      cases hkey
    · rw [if_neg hpeers] at hkey
      cases hkey
  · left
    split at h
    · next harg =>
      obtain ⟨k, _, rfl⟩ := map_eq_ok h
      exact ⟨by simp, rfl, .inr harg⟩
    · split at h
      · obtain ⟨hpeers, hpeers', hstring⟩ := updateLastPeer_eq_ok h
        exact ⟨hpeers', hstring, .inl hpeers⟩
      · cases h

theorem configReadCmd_inPeer {argv : List Bytes} (hpeers : d.peers ≠ [])
    (h : configReadCmd sys files d argv = .ok d') : d'.string = d.string := by
  fun_induction configReadCmd sys files d argv with
  | case1 d =>
    cases h
    rfl
  | case2 d => exact (updateLastPeer_eq_ok h).2.2
  | case3 d arg hremove => cases h
  | case4 d value args ih =>
    obtain ⟨d₁, hstep, hrest⟩ := Loops.bind_eq_ok.1 h
    obtain ⟨-, hpeers₁, hstring⟩ := updateLastPeer_eq_ok hstep
    rw [ih d₁ hpeers₁ hrest, hstring]
  | case5 d arg value args hremove ih =>
    obtain ⟨d₁, hstep, hrest⟩ := Loops.bind_eq_ok.1 h
    obtain ⟨hpeers₁, hstring, -⟩ | ⟨hnone, -⟩ := readArgument_assigns hstep
    · rw [ih d₁ hpeers₁ hrest, hstring]
    · exact absurd hnone hpeers

theorem configReadCmd_assigns {argv : List Bytes} (hpeers : d.peers = [])
    (h : configReadCmd sys files d argv = .ok d') :
    d'.string = assignAll d.string (commandAssigns argv) := by
  fun_induction configReadCmd sys files d argv with
  | case1 d =>
    cases h
    rfl
  | case2 d => exact absurd hpeers (updateLastPeer_eq_ok h).1
  | case3 d arg hremove => cases h
  | case4 d value args ih =>
    obtain ⟨d₁, hstep, -⟩ := Loops.bind_eq_ok.1 h
    exact absurd hpeers (updateLastPeer_eq_ok hstep).1
  | case5 d arg value args hremove ih =>
    obtain ⟨d₁, hstep, hrest⟩ := Loops.bind_eq_ok.1 h
    rw [commandAssigns]
    obtain ⟨hpeers₁, hstring, hpeer⟩ | ⟨-, hpeers₁, hpeer, key, hkey, hstring⟩ :=
      readArgument_assigns hstep
    · rw [if_pos (hpeer.resolve_left (not_not.2 hpeers)), configReadCmd_inPeer hpeers₁ hrest, hstring]
      rfl
    · rw [if_neg hpeer, hkey, assignAll_append, ih d₁ hpeers₁ hrest, hstring]

/-! ### An answer -/

variable {st : GetState Addr}

-- In a peer no string is assigned.
theorem getLine_inPeer {st' : GetState Addr} {line : Bytes} (hpeers : st.device.peers ≠ [])
    (h : getLine sys st line = .ok st') :
    st'.device.peers ≠ [] ∧ st'.device.string = st.device.string := by
  cases getField_cases (getLine_eq_ok h).1 with
  | device _ _ hnil => exact absurd hnil hpeers
  | publicKey | peer => exact ⟨by simp, rfl⟩
  | errno | other => exact ⟨hpeers, rfl⟩

theorem readReply_string_inPeer {lines : List Bytes} (hpeers : st.device.peers ≠ [])
    (h : readReply sys st lines = .ok d) : d.string = st.device.string := by
  induction lines generalizing st with
  | nil => cases h
  | cons line lines ih =>
    obtain ⟨-, -, rfl⟩ | ⟨-, st₁, hstep, hrest⟩ := readReply_cons_ok h
    · rfl
    · obtain ⟨hpeers₁, hstring⟩ := getLine_inPeer hpeers hstep
      rw [ih hpeers₁ hrest, hstring]

theorem readReply_assigns {lines : List Bytes} (hpeers : st.device.peers = [])
    (h : readReply sys st lines = .ok d) :
    d.string = assignAll st.device.string (replyAssigns lines) := by
  induction lines generalizing st with
  | nil => cases h
  | cons line lines ih =>
    rw [replyAssigns]
    obtain ⟨hline, -, rfl⟩ | ⟨hline, st₁, hstep, hrest⟩ := readReply_cons_ok h
    · rw [if_pos (.inl hline)]
      rfl
    cases getField_cases (getLine_eq_ok hstep).1 with
    | device k d' _ hkey hd =>
      rw [if_neg (not_or.2 ⟨hline, ne_public_key hkey⟩), hkey, assignAll_append,
        ih ((WgDevice.getField_peers hd).trans hpeers) hrest]
      congr 1
      exact WgDevice.getField_assigns hd
    | publicKey k hkey =>
      rw [if_pos (.inr hkey)]
      have hstring := fun hne => readReply_string_inPeer hne hrest
      exact hstring (List.concat_ne_nil _ _)
    | peer k done p p' hpeers' =>
      rw [hpeers] at hpeers'
      simp at hpeers'
    | errno n hkey =>
      have hnone : fieldKey uapiDeviceKeys "errno".toList = none := by decide
      rw [if_neg (by rw [hkey]; exact not_or.2 ⟨hline, by decide⟩), hkey, hnone]
      have hstring := fun hnil => ih hnil hrest
      exact hstring hpeers
    | other hpublic hdevice =>
      rw [if_neg (not_or.2 ⟨hline, hpublic⟩), hdevice hpeers]
      exact ih hpeers hrest

/-! ### An answer of the kernel -/

theorem parseDevice_assigns (d : WgDevice Addr) (a : DeviceAttribute Addr) :
    (parseDevice d a).string = assignAll d.string (attributeAssigns a) := by
  cases a with
  | privateKey payload =>
    unfold parseDevice
    simp only
    split <;> rfl
  | listenPort payload | fwmark payload | uint p payload =>
    unfold parseDevice
    simp only
    split <;> rfl
  | string p payload =>
    unfold parseDevice attributeAssigns
    simp only
    cases p.ofAttribute payload <;> rfl
  | peers fs => rfl
  | other => rfl

theorem Source.Gives.string {source : Source Addr} (h : source.Gives sys files d)
    (p : StringParameter) : d.string p = lastAssigned source.assigns p := by
  rw [← assignAll_eq]
  cases source with
  | file append config => exact congrFun (configRead_assigns h) p
  | command argv => exact congrFun (configReadCmd_assigns rfl h) p
  | reply text => exact congrFun (readReply_assigns rfl h) p
  | netlink attrs =>
    have hfold : ∀ (attrs : List (DeviceAttribute Addr)) (d : WgDevice Addr),
        (attrs.foldl parseDevice d).string = assignAll d.string (attrs.flatMap attributeAssigns) := by
      intro attrs
      induction attrs with
      | nil => exact fun _ => rfl
      | cons a attrs ih =>
        intro d
        rw [List.foldl_cons, ih, parseDevice_assigns, List.flatMap_cons, assignAll_append]
    cases h
    exact congrFun (hfold attrs {}) p

end Readers

section Formatted

variable {Addr : Type} {d : WgDevice Addr}

inductive Formatter where
  | userspaceSetDevice | kernelSetDevice | showconfMain
  /-- `ugly_print` with the name of a string parameter. -/
  | uglyPrint (p : StringParameter)

/-- The pointers that are formatted: those whose flag is set, and the one that was asked for. -/
def Formatter.strings (d : WgDevice Addr) : Formatter → List (Option Bytes)
  | .userspaceSetDevice | .kernelSetDevice | .showconfMain => d.formatStrings fun _ s => s
  | .uglyPrint p => [(d.string p).getD none]

/-- The line `ugly_print` prints for a string; it faults on a `NULL`. -/
def uglyPrintString (name : Bytes) (withInterface : Bool) (d : WgDevice Addr) (p : StringParameter) :
    Option Bytes :=
  ((d.string p).getD none).map fun s =>
    (if withInterface then name ++ ['\t'] else []) ++ s ++ ['\n']

theorem uglyPrintString_ne_none_iff (name : Bytes) (withInterface : Bool) (p : StringParameter) :
    uglyPrintString name withInterface d p ≠ none ↔
      ∀ s ∈ (Formatter.uglyPrint p).strings d, s ≠ none := by
  unfold uglyPrintString Formatter.strings
  rw [List.forall_mem_singleton, ne_eq, Option.map_eq_none_iff]

theorem flagged_iff : (∀ s ∈ d.formatStrings fun _ s => s, s ≠ none) ↔ d.NonNull := by
  unfold WgDevice.NonNull WgDevice.formatStrings
  constructor
  · intro h p hp
    refine h none ?_ rfl
    rw [List.mem_flatMap]
    exact ⟨p, p.mem_all, by simp [hp]⟩
  · intro h s hs hnone
    obtain ⟨p, -, hp⟩ := List.mem_flatMap.1 hs
    rw [List.map_id', Option.mem_toList] at hp
    exact h p (hnone ▸ hp)

-- `kernel_set_device` reads every string whose flag is set.
theorem deviceAttrs_ne_none_iff (version : Nat) : deviceAttrs version d ≠ none ↔ d.NonNull := by
  constructor
  · intro h p hp
    refine h ?_
    have hattr : stringAttr version d p = none := by
      unfold stringAttr
      rw [hp]
    have hstrings : ∀ l : List StringParameter, p ∈ l → l.mapM (stringAttr version d) = none := by
      intro l hl
      induction l with
      | nil => cases hl
      | cons q l ih =>
        rw [List.mapM_cons]
        rcases List.mem_cons.1 hl with rfl | hl
        · rw [hattr]
          rfl
        · rw [ih hl]
          cases stringAttr version d q <;> rfl
    unfold deviceAttrs
    rw [hstrings _ p.mem_all]
    rfl
  · intro h
    obtain ⟨device, hdevice, -⟩ := @deviceAttrs_eq Addr version d h (IfName.ofArg [])
    rw [hdevice]
    exact Option.some_ne_none device

end Formatted

section

variable {Addr : Type} {sys : Resolver Addr} {files : Bytes → Option Bytes} {d : WgDevice Addr}

-- Only the command line takes an empty value.
theorem Source.assigns_some {source : Source Addr} (h : ∀ argv, source ≠ .command argv) :
    ∀ a ∈ source.assigns, a.2 ≠ none := by
  have hkey : ∀ (key : DeviceKey) (s : Bytes), ∀ a ∈ key.assigns (some s), a.2 ≠ none := by
    intro key s a ha
    cases key with
    | string p =>
      rw [List.mem_singleton.1 ha]
      exact Option.some_ne_none s
    | _ => cases ha
  cases source with
  | command argv => exact absurd rfl (h argv)
  | file append config =>
    intro a ha
    obtain ⟨input, -, ha⟩ := List.mem_flatMap.1 ha
    unfold fileAssigns at ha
    split at ha
    · next key value hmatch =>
      obtain ⟨-, -, -, -, -, hvalue⟩ := keyMatch_eq_some hmatch
      unfold stored at ha
      rw [if_neg hvalue] at ha
      exact hkey key value a ha
    · cases ha
  | reply text =>
    have hlines : ∀ lines, ∀ a ∈ replyAssigns lines, a.2 ≠ none := by
      intro lines
      induction lines with
      | nil => exact fun a ha => absurd ha List.not_mem_nil
      | cons line lines ih =>
        intro a ha
        rw [replyAssigns] at ha
        split at ha
        · cases ha
        · rcases List.mem_append.1 ha with ha | ha
          · split at ha
            · exact hkey _ _ a ha
            · cases ha
          · exact ih a ha
    exact hlines _
  | netlink attrs =>
    intro a ha
    obtain ⟨attr, -, ha⟩ := List.mem_flatMap.1 ha
    cases attr with
    | string p payload =>
      obtain ⟨s, -, rfl⟩ := List.mem_map.1 ha
      exact Option.some_ne_none s
    | _ => cases ha

theorem lastAssigned_mem {as : List Assignment} {p : StringParameter} {s : Option Bytes}
    (h : lastAssigned as p = some s) : (p, s) ∈ as := by
  obtain ⟨⟨q, t⟩, hlast, rfl⟩ := Option.map_eq_some_iff.1 h
  obtain ⟨hmem, hq⟩ := List.mem_filter.1 (List.mem_of_getLast? hlast)
  rw [decide_eq_true_eq] at hq
  subst hq
  exact hmem

/-- No formatted string is `NULL` if and only if the input stores each of the nine strings, the last
time with a value that is not empty.  The three writers need only that no string is stored last with
an empty value, which just a command line can do. -/
theorem formatted_nonNull_iff {source : Source Addr} {d : WgDevice Addr}
    (h : source.Gives sys files d) :
    ((∀ f : Formatter, ∀ s ∈ f.strings d, s ≠ none) ↔
      ∀ p, ∃ s, lastAssigned source.assigns p = some (some s)) ∧
    (∀ f : Formatter, (∀ p, f ≠ .uglyPrint p) →
      ((∀ s ∈ f.strings d, s ≠ none) ↔ ∀ p, lastAssigned source.assigns p ≠ some none)) ∧
    (∀ version, deviceAttrs version d ≠ none ↔ ∀ p, lastAssigned source.assigns p ≠ some none) ∧
    ((∀ argv, source ≠ .command argv) → ∀ p, lastAssigned source.assigns p ≠ some none) := by
  have hstring := h.string
  have hflagged : d.NonNull ↔ ∀ p, lastAssigned source.assigns p ≠ some none := by
    unfold WgDevice.NonNull
    simp only [hstring]
  have hwriters : ∀ f : Formatter, (∀ p, f ≠ .uglyPrint p) →
      ((∀ s ∈ f.strings d, s ≠ none) ↔ ∀ p, lastAssigned source.assigns p ≠ some none) := by
    intro f hf
    rw [← hflagged, ← flagged_iff]
    cases f with
    | uglyPrint p => exact absurd rfl (hf p)
    | _ => rfl
  refine ⟨⟨?_, ?_⟩, hwriters, fun version => ?_, ?_⟩
  · intro hall p
    have hp := hall (.uglyPrint p) _ List.mem_cons_self
    rw [hstring] at hp
    cases hlast : lastAssigned source.assigns p with
    | none =>
      rw [hlast] at hp
      exact absurd rfl hp
    | some s =>
      rw [hlast] at hp
      obtain ⟨t, rfl⟩ := Option.ne_none_iff_exists'.1 hp
      exact ⟨t, rfl⟩
  · intro hall f
    by_cases hf : ∀ p, f ≠ .uglyPrint p
    · refine (hwriters f hf).2 fun p hp => ?_
      obtain ⟨s, hs⟩ := hall p
      rw [hs] at hp
      cases hp
    · rw [not_forall] at hf
      obtain ⟨p, hp⟩ := hf
      rw [not_not.1 hp]
      intro s hs
      rw [List.mem_singleton.1 hs, hstring]
      obtain ⟨t, ht⟩ := hall p
      rw [ht]
      exact Option.some_ne_none t
  · rw [deviceAttrs_ne_none_iff, hflagged]
  · intro hsource p hp
    exact Source.assigns_some hsource _ (lastAssigned_mem hp) rfl

end

def nineStrings : Source Bool := .netlink (StringParameter.all.map fun p => .string p "12345\x00".toList)

theorem nineStrings_nonNull : nineStrings.Gives noResolver (fun _ => none)
      { string := fun _ => some (some "12345".toList) } ∧
    ∀ f : Formatter, ∀ s ∈ f.strings
      ({ string := fun _ => some (some "12345".toList) } : WgDevice Bool), s ≠ none := by
  have hgives : nineStrings.Gives noResolver (fun _ => none)
      { string := fun _ => some (some "12345".toList) } := by
    have hstring : (fun p => assignAll (fun _ => none) nineStrings.assigns p) =
        fun _ => some (some "12345".toList) := by
      funext p
      cases p <;> decide
    rw [← hstring]
    rfl
  refine ⟨hgives, (formatted_nonNull_iff hgives).1.2 ?_⟩
  intro p
  exact ⟨"12345".toList, by cases p <;> decide⟩

/-- `awg set wg0 i1 ""` sets the flag of a `NULL`, which `kernel_set_device` gives to `strlen`; and
`awg show wg0 i1` of a device without the string formats `NULL`. -/
theorem emptyArgument_null :
    (∃ d : WgDevice Bool, configReadCmd noResolver (fun _ => none) {} ["i1".toList, []] = .ok d ∧
      none ∈ Formatter.userspaceSetDevice.strings d ∧ deviceAttrs 2 d = none) ∧
    (Source.netlink []).Gives noResolver (fun _ => none) ({} : WgDevice Bool) ∧
      none ∈ (Formatter.uglyPrint .i1).strings ({} : WgDevice Bool) := by
  refine ⟨⟨_, rfl, ?_, rfl⟩, rfl, ?_⟩
  · decide
  · decide

end Amnezia.Tools

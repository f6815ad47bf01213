import Mathlib.Data.List.Forall2
import Mathlib.Data.List.Induction
import Runspace.Proofs.Chain.Fusion

/-!
# Naming — the classes of commands by their names

A classifier by names looks at a command's name alone, and not at the case of the ASCII letters in
it. Of the registrations of a name the last one counts, and a registration counts before a relay. So
nothing but the names that it repeats depends on how the commands of a chain, the relays and the
registrations are written.

* `SameLetter`, `SameName`: letters and names that differ at most in case;
  **`foldCase_eq_iff`**: just these are folded to the same text;
* `NameClassifier.register`: a classifier after some registrations;
  **`NameClassifier.classify_withRemote`**: what one more of them changes;
* `NameClassifier.Classified`: the class of a name; **`classified_classify`**: it is the one found;
* `Chain.retell`, **`Chain.analyze_eq_retell`**: the verdict depends on the classes, and repeats the
  commands;
* **`NameClassifier.classes_of_names`**: both together.
-/

namespace Runspace

/-! ## Names up to case -/

/-- Two characters are the same, or one is an ASCII capital letter and the other its small one. -/
def SameLetter (a b : Char) : Prop :=
  a = b ∨ a.isUpper = true ∧ b.toNat = a.toNat + 32 ∨ b.isUpper = true ∧ a.toNat = b.toNat + 32

/-- Two names are the same but for the case of ASCII letters. -/
def SameName (s t : String) : Prop := List.Forall₂ SameLetter s.toList t.toList

theorem isUpper_iff {c : Char} : c.isUpper = true ↔ 65 ≤ c.toNat ∧ c.toNat ≤ 90 := by
  have hbounds : c.isUpper = decide (c.val ≥ 'A'.val ∧ c.val ≤ 'Z'.val) := rfl
  simp [hbounds, UInt32.le_iff_toNat_le, ← Char.toNat_val]

theorem toNat_toLower (c : Char) :
    c.toLower.toNat = if 65 ≤ c.toNat ∧ c.toNat ≤ 90 then c.toNat + 32 else c.toNat := by
  have hupper : c.val ≥ 'A'.val ∧ c.val ≤ 'Z'.val ↔ 65 ≤ c.toNat ∧ c.toNat ≤ 90 :=
    decide_eq_true_iff.symm.trans isUpper_iff
  unfold Char.toLower
  split
  · next h =>
    have hhigh : c.val.toNat ≤ 90 := (hupper.1 h).2
    rw [if_pos (hupper.1 h)]
    change (c.val + 32).toNat = c.val.toNat + 32
    rw [UInt32.toNat_add]
    refine Nat.mod_eq_of_lt ?_
    change c.val.toNat + 32 < 4294967296
    omega
  · next h => rw [if_neg (mt hupper.2 h)]

theorem toLower_eq_iff {a b : Char} : a.toLower = b.toLower ↔ SameLetter a b := by
  rw [SameLetter, isUpper_iff, isUpper_iff, ← Char.toNat_inj, ← Char.toNat_inj, toNat_toLower,
    toNat_toLower]
  split <;> split <;> omega

theorem map_eq_map_of_forall₂ {α β γ : Type} {f : α → γ} {g : β → γ} {l : List α} {l' : List β} :
    l.map f = l'.map g ↔ List.Forall₂ (fun a b => f a = g b) l l' := by
  rw [← List.forall₂_eq_eq_eq, List.forall₂_map_left_iff, List.forall₂_map_right_iff]

/-- **Just the names that differ at most in case are folded to the same text.** -/
theorem foldCase_eq_iff {s t : String} : foldCase s = foldCase t ↔ SameName s t := by
  rw [foldCase, foldCase, String.ofList_inj, map_eq_map_of_forall₂]
  simp only [toLower_eq_iff, SameName]

instance (s t : String) : Decidable (SameName s t) := decidable_of_iff _ foldCase_eq_iff

namespace NameClassifier

variable {relays : RelayNames} {rs : List (String × PoolId)} {r : String × PoolId} {name : String}
  {k : CommandClass} {command : Command}

/-! ## One registration after another -/

/-- A classifier that knows the relays, after some registrations. -/
def register (relays : RelayNames) (rs : List (String × PoolId)) : NameClassifier :=
  rs.foldl (fun c r => c.withRemote r.1 r.2) (ofRelays relays)

theorem register_concat (relays : RelayNames) (rs : List (String × PoolId))
    (r : String × PoolId) :
    register relays (rs ++ [r]) = (register relays rs).withRemote r.1 r.2 :=
  List.foldl_append

theorem classify_register_nil (relays : RelayNames) (command : Command) :
    (register relays []).classify command =
      if lists relays.streaming (foldCase command.name) then .relay .streaming
      else if lists relays.materializing (foldCase command.name) then .relay .materializing
      else .opaqueCommand :=
  rfl

/-- **A registration decides on its own name,** and on no other. -/
theorem classify_withRemote (c : NameClassifier) (name : String) (pool : PoolId)
    (command : Command) :
    (c.withRemote name pool).classify command =
      if SameName name command.name then .remote pool else c.classify command := by
  unfold classify withRemote
  dsimp only
  rw [List.lookup_cons]
  by_cases h : SameName name command.name
  · rw [if_pos h, foldCase_eq_iff.2 h, beq_self_eq_true]
  · have hne : (foldCase command.name == foldCase name) = false :=
      beq_eq_false_iff_ne.2 fun heq => h (foldCase_eq_iff.1 heq.symm)
    rw [if_neg h, hne]

theorem lists_iff {names : List String} :
    lists names (foldCase name) = true ↔ ∃ n ∈ names, SameName n name := by
  simp [lists, foldCase_eq_iff]

/-! ## The class of a name -/

/-- The class that relays and registrations, the latest last, give to a name. -/
inductive Classified (relays : RelayNames) (rs : List (String × PoolId)) (name : String) :
    CommandClass → Prop where
  | remote {earlier later : List (String × PoolId)} {n : String} {pool : PoolId}
    (hrs : rs = earlier ++ (n, pool) :: later) (hn : SameName n name)
    (hlast : ∀ r ∈ later, ¬ SameName r.1 name) : Classified relays rs name (.remote pool)
  | streaming (hrs : ∀ r ∈ rs, ¬ SameName r.1 name) (hs : ∃ n ∈ relays.streaming, SameName n name) :
    Classified relays rs name (.relay .streaming)
  | materializing (hrs : ∀ r ∈ rs, ¬ SameName r.1 name)
    (hs : ∀ n ∈ relays.streaming, ¬ SameName n name)
    (hm : ∃ n ∈ relays.materializing, SameName n name) :
    Classified relays rs name (.relay .materializing)
  | opaqueCommand (hrs : ∀ r ∈ rs, ¬ SameName r.1 name)
    (hs : ∀ n ∈ relays.streaming, ¬ SameName n name)
    (hm : ∀ n ∈ relays.materializing, ¬ SameName n name) :
    Classified relays rs name .opaqueCommand

theorem Classified.concat (h : Classified relays rs name k) (hr : ¬ SameName r.1 name) :
    Classified relays (rs ++ [r]) name k := by
  have hmore : ∀ rs', (∀ r' ∈ rs', ¬ SameName r'.1 name) →
      ∀ r' ∈ rs' ++ [r], ¬ SameName r'.1 name := by
    intro rs' hrs' r' hr'
    rcases List.mem_append.1 hr' with hr' | hr'
    · exact hrs' r' hr'
    · rwa [List.mem_singleton.1 hr']
  cases h with
  | @remote earlier later n pool hrs hn hlast =>
    have hsplit : rs ++ [r] = earlier ++ (n, pool) :: (later ++ [r]) := by simp [hrs]
    exact .remote hsplit hn (hmore later hlast)
  | streaming hrs hs => exact .streaming (hmore rs hrs) hs
  | materializing hrs hs hm => exact .materializing (hmore rs hrs) hs hm
  | opaqueCommand hrs hs hm => exact .opaqueCommand (hmore rs hrs) hs hm

/-- **The class that is found is the class of the name.** -/
theorem classified_classify (relays : RelayNames) (rs : List (String × PoolId))
    (command : Command) :
    Classified relays rs command.name ((register relays rs).classify command) := by
  induction rs using List.reverseRecOn with
  | nil =>
    have hnone : ∀ r ∈ ([] : List (String × PoolId)), ¬ SameName r.1 command.name := nofun
    rw [classify_register_nil]
    split
    · next hs => exact .streaming hnone (lists_iff.1 hs)
    next hs =>
    have hs : ∀ n ∈ relays.streaming, ¬ SameName n command.name := by simpa [lists_iff] using hs
    split
    · next hm => exact .materializing hnone hs (lists_iff.1 hm)
    · next hm => exact .opaqueCommand hnone hs (by simpa [lists_iff] using hm)
  | append_singleton rs r ih =>
    rw [register_concat, classify_withRemote]
    split
    · next hr => exact .remote rfl hr (by simp)
    · next hr => exact ih.concat hr

theorem classify_register_append {later : List (String × PoolId)}
    (h : ∀ r ∈ later, ¬ SameName r.1 command.name) :
    (register relays (rs ++ later)).classify command = (register relays rs).classify command := by
  induction later using List.reverseRecOn with
  | nil => rw [List.append_nil]
  | append_singleton later r ih =>
    rw [← List.append_assoc, register_concat, classify_withRemote, if_neg (h r (by simp))]
    exact ih fun r' hr' => h r' (List.mem_append_left _ hr')

theorem Classified.classify_eq (h : Classified relays rs command.name k) :
    (register relays rs).classify command = k := by
  have hnone : (∀ r ∈ rs, ¬ SameName r.1 command.name) →
      (register relays rs).classify command = (register relays []).classify command := fun hrs =>
    @classify_register_append relays [] command rs hrs
  cases h with
  | @remote earlier later n pool hrs hn hlast =>
    subst hrs
    rw [List.append_cons, classify_register_append hlast, register_concat, classify_withRemote,
      if_pos hn]
  | streaming hrs hs => rw [hnone hrs, classify_register_nil, if_pos (lists_iff.2 hs)]
  | materializing hrs hs hm =>
    rw [hnone hrs, classify_register_nil, if_neg (by simpa [lists_iff] using hs),
      if_pos (lists_iff.2 hm)]
  | opaqueCommand hrs hs hm =>
    rw [hnone hrs, classify_register_nil, if_neg (by simpa [lists_iff] using hs),
      if_neg (by simpa [lists_iff] using hm)]

/-! ## Other spellings -/

/-- The same relays and registrations, but for the case of ASCII letters. -/
structure Respelled (relays relays' : RelayNames) (rs rs' : List (String × PoolId)) : Prop where
  streaming : List.Forall₂ SameName relays.streaming relays'.streaming
  materializing : List.Forall₂ SameName relays.materializing relays'.materializing
  registrations : List.Forall₂ (fun r r' => SameName r.1 r'.1 ∧ r.2 = r'.2) rs rs'

theorem remotes_register (relays : RelayNames) (rs : List (String × PoolId)) :
    (register relays rs).remotes = (rs.map fun r => (foldCase r.1, r.2)).reverse := by
  induction rs using List.reverseRecOn with
  | nil => rfl
  | append_singleton rs r ih =>
    rw [register_concat, withRemote, ih, List.map_append, List.reverse_append]
    rfl

theorem relays_register (relays : RelayNames) (rs : List (String × PoolId)) :
    (register relays rs).relays = relays := by
  induction rs using List.reverseRecOn with
  | nil => rfl
  | append_singleton rs r ih =>
    rw [register_concat]
    exact ih

theorem map_foldCase_eq {names names' : List String} (h : List.Forall₂ SameName names names') :
    names.map foldCase = names'.map foldCase :=
  map_eq_map_of_forall₂.2 (h.imp fun _ _ => foldCase_eq_iff.2)

/-- **The class of a command does not depend on how names are spelled,** nor on its arguments. -/
theorem Respelled.classify_eq {relays' : RelayNames} {rs' : List (String × PoolId)}
    {command' : Command} (h : Respelled relays relays' rs rs')
    (hname : SameName command.name command'.name) :
    (register relays' rs').classify command' = (register relays rs).classify command := by
  have hremotes : (register relays rs).remotes = (register relays' rs').remotes := by
    rw [remotes_register, remotes_register]
    exact congrArg List.reverse (map_eq_map_of_forall₂.2 (h.registrations.imp fun r r' hr =>
      Prod.ext (foldCase_eq_iff.2 hr.1) hr.2))
  unfold classify
  rw [relays_register, relays_register, hremotes, foldCase_eq_iff.2 hname]
  unfold lists
  rw [map_foldCase_eq h.streaming, map_foldCase_eq h.materializing]

end NameClassifier

/-! ## Verdicts -/

namespace Chain

variable {c d : Chain}

/-- A verdict on commands, told of other commands in their places. -/
def retell (commands : List Command) :
    Except Rejection FusedChain → Except Rejection FusedChain
  | .ok fused => .ok { fused with commands }
  | .error (.opaqueCommand index _) =>
    .error (.opaqueCommand index ((commands[index]?.map (·.name)).getD ""))
  | .error r => .error r

theorem kinds_classify (commands : List Command) (classifier : Command → CommandClass) :
    (classify commands classifier).kinds = commands.map classifier := by
  simp [kinds, classify]

theorem map_command_classify (commands : List Command) (classifier : Command → CommandClass) :
    (classify commands classifier).map Link.command = commands := by
  simp [classify, Function.comp_def]

theorem pools_eq (c : Chain) : c.pools = c.kinds.filterMap CommandClass.pool? := by
  simp [pools, kinds]

theorem nameAt_eq (c : Chain) (i : Nat) :
    c.nameAt i = (((c.map Link.command)[i]?).map (·.name)).getD "" := by
  simp [nameAt, Function.comp_def]

theorem FirstAt.congr {k : CommandClass} {i : Nat} (h : d.kinds = c.kinds) :
    d.FirstAt k i ↔ c.FirstAt k i := by
  rw [FirstAt, FirstAt, h]

theorem RemoteAfter.congr {i : Nat} (h : d.kinds = c.kinds) :
    d.RemoteAfter i ↔ c.RemoteAfter i := by
  rw [RemoteAfter, RemoteAfter, h]

/-- **The verdict on a chain depends on the classes of its commands,** which it repeats. -/
theorem analyze_eq_retell (h : d.kinds = c.kinds) :
    d.analyze = retell (d.map Link.command) c.analyze := by
  have hlength : d.length = c.length := by simpa [kinds] using congrArg List.length h
  have hopaque : d.findIdx? (fun l => l.kind = .opaqueCommand) =
      c.findIdx? fun l => l.kind = .opaqueCommand :=
    Option.ext fun i => by rw [findIdx?_eq_some_iff, findIdx?_eq_some_iff, FirstAt.congr h]
  have hflows : d.firstMaterializing? = c.firstMaterializing? :=
    Option.ext fun i => by
      rw [firstMaterializing?_eq_some_iff, firstMaterializing?_eq_some_iff, FirstAt.congr h,
        RemoteAfter.congr h]
  unfold analyze
  rw [hlength, hopaque, pools_eq d, h, ← pools_eq c, hflows]
  split
  · rfl
  split
  · next i _ => rw [nameAt_eq d]; rfl
  split
  · rfl
  split
  · rfl
  split <;> rfl

end Chain

namespace NameClassifier

/-- **Commands are classified by name, up to case.**

After any registrations, the class of a command is that of its name: remote on the pool of the last
registration of the name, else a streaming relay, else a materializing one, else nothing is known of
it. Names count as the same if they differ at most in the case of ASCII letters.

So if relays, registrations and commands are spelled in another case, and the commands get other
arguments, each command has the same class, and each chain the same verdict, but for the commands
that it repeats. -/
theorem classes_of_names (relays : RelayNames) (rs : List (String × PoolId)) :
    let c := register relays rs
    (∀ command k, c.classify command = k ↔ Classified relays rs command.name k) ∧
      ∀ relays' rs', Respelled relays relays' rs rs' →
        let c' := register relays' rs'
        (∀ command command' : Command, SameName command.name command'.name →
          c'.classify command' = c.classify command) ∧
        ∀ commands commands' : List Command,
          List.Forall₂ (fun a a' => SameName a.name a'.name) commands commands' →
          (Chain.classify commands' c'.classify).analyze =
            Chain.retell commands' (Chain.classify commands c.classify).analyze := by
  intro c
  refine ⟨fun command k => ⟨fun h => h ▸ classified_classify relays rs command,
    Classified.classify_eq⟩, fun relays' rs' h => ?_⟩
  intro c'
  have hclass : ∀ command command' : Command, SameName command.name command'.name →
      c'.classify command' = c.classify command := fun _ _ => h.classify_eq
  refine ⟨hclass, fun commands commands' hnames => ?_⟩
  have hkinds : (Chain.classify commands' c'.classify).kinds =
      (Chain.classify commands c.classify).kinds := by
    rw [Chain.kinds_classify, Chain.kinds_classify]
    exact (map_eq_map_of_forall₂.2 (hnames.imp fun a a' ha => (hclass a a' ha).symm)).symm
  rw [Chain.analyze_eq_retell hkinds, Chain.map_command_classify]

/-- A name that is registered twice and a relay too runs on the later pool, a relay of both kinds is
a streaming one, and a letter that is not ASCII is not folded; all of this in another spelling,
too. -/
theorem classes_of_names_overlap :
    let two : PoolId := .ofDraw 2
    let relays : RelayNames := ⟨["Where-Object", "get-item"], ["WHERE-object", "Étale"]⟩
    let rs : List (String × PoolId) := [("Get-Item", .ofDraw 1), ("GET-ITEM", two)]
    let relays' : RelayNames := ⟨["where-object", "GET-item"], ["Where-Object", "ÉTALE"]⟩
    let rs' : List (String × PoolId) := [("get-item", .ofDraw 1), ("get-Item", two)]
    let c := register relays rs
    let c' := register relays' rs'
    c.classify (.new "gEt-iTem") = .remote two ∧
      c.classify (.new "where-object") = .relay .streaming ∧
      c.classify (.new "étale") = .opaqueCommand ∧
      Respelled relays relays' rs rs' ∧
      (Chain.classify [.new "GET-ITEM", .new "étale"] c'.classify).analyze =
        Chain.retell [.new "GET-ITEM", .new "étale"]
          (Chain.classify [.new "Get-Item", .new "éTale"] c.classify).analyze := by
  intro two relays rs relays' rs' c c'
  obtain ⟨hclass, hspelling⟩ := classes_of_names relays rs
  have hrelay : ∀ r ∈ rs, ¬ SameName r.1 "where-object" := by decide
  have hother : ∀ r ∈ rs, ¬ SameName r.1 "étale" := by decide
  have h : Respelled relays relays' rs rs' := {
    streaming := .cons (by decide) (.cons (by decide) .nil)
    materializing := .cons (by decide) (.cons (by decide) .nil)
    registrations := .cons ⟨by decide, rfl⟩ (.cons ⟨by decide, rfl⟩ .nil) }
  refine ⟨(hclass _ _).2 (@Classified.remote _ _ _ (rs.take 1) [] _ _ rfl (by decide) nofun),
    (hclass _ _).2 (.streaming hrelay (by decide)),
    (hclass _ _).2 (.opaqueCommand hother (by decide) (by decide)), h, ?_⟩
  exact (hspelling relays' rs' h).2 _ _ (.cons (by decide) (.cons (by decide) .nil))

end NameClassifier

end Runspace

/-
# Repair.TestCasesSpec -- acceptance composes

`values_equal` is transitive (`valuesEqual_trans`), a case that is kept stays kept and a new case that
meets its contract still meets it under further additions (`keepsCase_trans`,
`meetsContract_trans`).  Hence the proposal for an accepted proposal is accepted itself
(`preserves_trans`).
-/
import AxiomEncode.Repair.TestCases

namespace AxiomEncode.Repair

open Theory.Typed Value

set_option autoImplicit false

/-! ## The comparison of the code -/

section Comparison

variable {a b c : Value} {as bs cs : Members}

theorem itemsEqual_iff : ∀ {as bs : List Value},
    itemsEqual as bs = true ↔ List.Forall₂ (fun a b => valuesEqual a b = true) as bs
  | [], [] => by simp [itemsEqual]
  | [], _ :: _ => by simp [itemsEqual]
  | _ :: _, [] => by simp [itemsEqual]
  | a :: as, b :: bs => by simp [itemsEqual, itemsEqual_iff]

theorem membersEqual_iff : ∀ {as : Members},
    membersEqual as bs = true
      ↔ ∀ member ∈ as, ∃ b, lookupBy Scalar.key member.1 bs = some b ∧ valuesEqual member.2 b = true
  | [] => by simp [membersEqual]
  | (key, a) :: as => by
    rw [membersEqual, Bool.and_eq_true, membersEqual_iff, List.forall_mem_cons]
    refine and_congr_left' ?_
    cases lookupBy Scalar.key key bs <;> simp

theorem kind_eq_dict (isDict : a.kind = .dict) : ∃ members, a = .map members := by
  cases a with
  | map members => exact ⟨members, rfl⟩
  | scalar value => cases value <;> cases isDict
  | _ => cases isDict

theorem kind_eq_list (isList : a.kind = .list) : ∃ items, a = .seq items := by
  cases a with
  | seq items => exact ⟨items, rfl⟩
  | scalar value => cases value <;> cases isList
  | _ => cases isList

theorem valuesEqual_map :
    valuesEqual (.map as) (.map bs) = true
      ↔ (keysWithin Scalar.key (as.map Prod.fst) (bs.map Prod.fst) = true
          ∧ keysWithin Scalar.key (bs.map Prod.fst) (as.map Prod.fst) = true)
        ∧ ∀ member ∈ as, ∃ b, lookupBy Scalar.key member.1 bs = some b ∧ valuesEqual member.2 b = true := by
  rw [valuesEqual, Bool.and_eq_true, Bool.and_eq_true, membersEqual_iff]

theorem valuesEqual_seq {as bs : List Value} :
    valuesEqual (.seq as) (.seq bs) = true ↔ List.Forall₂ (fun a b => valuesEqual a b = true) as bs := by
  rw [valuesEqual, itemsEqual_iff]

theorem valuesEqual_other (noDict : a.kind ≠ .dict) (noList : a.kind ≠ .list) :
    valuesEqual a b = true ↔ a.kind = b.kind ∧ equal a b = true := by
  cases a with
  | map members => exact absurd rfl noDict
  | seq items => exact absurd rfl noList
  | _ => rw [valuesEqual, Bool.and_eq_true, decide_eq_true_eq] <;> simp

theorem kind_of_valuesEqual (same : valuesEqual a b = true) : a.kind = b.kind := by
  cases a with
  | map members =>
    cases b with
    | map members => rfl
    | _ => simp [valuesEqual] at same; exact same.1
  | seq items =>
    cases b with
    | seq items => rfl
    | _ => simp [valuesEqual] at same; exact same.1
  | scalar value =>
    refine ((valuesEqual_other ?_ ?_).mp same).1 <;> cases value <;> exact fun same => nomatch same
  | set members => exact ((valuesEqual_other (by simp [kind]) (by simp [kind])).mp same).1
  | tuple first second => exact ((valuesEqual_other (by simp [kind]) (by simp [kind])).mp same).1

theorem equal_trans (first : equal a b = true) (second : equal b c = true) : equal a c = true := by
  rw [equal, Bool.and_eq_true] at first second ⊢
  exact ⟨first.1, alike_trans first.2 second.2⟩

theorem valuesEqual_trans_other (noDict : a.kind ≠ .dict) (noList : a.kind ≠ .list)
    (first : valuesEqual a b = true) (second : valuesEqual b c = true) : valuesEqual a c = true := by
  have kinds := kind_of_valuesEqual first
  rw [valuesEqual_other noDict noList] at first ⊢
  rw [valuesEqual_other (kinds ▸ noDict) (kinds ▸ noList)] at second
  exact ⟨first.1.trans second.1, equal_trans first.2 second.2⟩

/-- **The comparison of the code is transitive.** -/
theorem valuesEqual_trans (first : valuesEqual a b = true) (second : valuesEqual b c = true) :
    valuesEqual a c = true := by
  have kinds := kind_of_valuesEqual first
  have kinds' := kind_of_valuesEqual second
  induction a using Value.induction generalizing b c with
  | scalar a =>
    refine valuesEqual_trans_other ?_ ?_ first second <;> cases a <;> exact fun same => nomatch same
  | seq as ih =>
    obtain ⟨bs, rfl⟩ := kind_eq_list kinds.symm
    obtain ⟨cs, rfl⟩ := kind_eq_list kinds'.symm
    rw [valuesEqual_seq] at first second ⊢
    exact forall₂_trans (fun a declared b c first second =>
      ih a declared first second (kind_of_valuesEqual first) (kind_of_valuesEqual second)) first second
  | map as ih =>
    obtain ⟨bs, rfl⟩ := kind_eq_dict kinds.symm
    obtain ⟨cs, rfl⟩ := kind_eq_dict kinds'.symm
    rw [valuesEqual_map] at first second ⊢
    refine ⟨⟨keysWithin_trans first.1.1 second.1.1, keysWithin_trans second.1.2 first.1.2⟩, ?_⟩
    intro member declared
    obtain ⟨b, found, same⟩ := first.2 member declared
    obtain ⟨key, isMember, sameKey⟩ := lookupBy_eq_some found
    obtain ⟨c, found', same'⟩ := second.2 (key, b) isMember
    exact ⟨c, (lookupBy_congr _ sameKey.symm).trans found',
      ih member declared same same' (kind_of_valuesEqual same) (kind_of_valuesEqual same')⟩
  | set as =>
    exact valuesEqual_trans_other (by simp [kind]) (by simp [kind]) first second
  | tuple a a' ih ih' =>
    exact valuesEqual_trans_other (by simp [kind]) (by simp [kind]) first second

end Comparison

/-! ## Cases -/

section Cases

variable {as bs cs : Members} {contracts : List Contract} {name : List Char}
  {original proposed later : Members}

theorem asserts_iff {output required : Members} :
    asserts output required = true
      ↔ ∀ member ∈ required, ∃ value, lookupBy Scalar.key member.1 output = some value
          ∧ valuesEqual value member.2 = true := by
  rw [asserts, List.all_eq_true]
  refine forall₂_congr fun member _ => ?_
  cases lookupBy Scalar.key member.1 output <;> simp

theorem asserts_trans (first : asserts bs as = true) (second : asserts cs bs = true) :
    asserts cs as = true := by
  rw [asserts_iff] at first second ⊢
  intro member declared
  obtain ⟨b, found, same⟩ := first member declared
  obtain ⟨key, isMember, sameKey⟩ := lookupBy_eq_some found
  obtain ⟨c, found', same'⟩ := second (key, b) isMember
  exact ⟨c, (lookupBy_congr _ sameKey.symm).trans found', valuesEqual_trans same' same⟩

/-- What `keepsCase` says. -/
theorem keepsCase_iff :
    keepsCase contracts name original proposed = true
      ↔ valuesEqual (.map (withoutOutput proposed)) (.map (withoutOutput original)) = true
        ∧ ∃ output output' required, get? original "output" = some (.map output)
          ∧ get? proposed "output" = some (.map output')
          ∧ requiredOutput (contractOf contracts name) = some required
          ∧ ((contractOf contracts name).isSome = true
            ∨ keysWithin Scalar.key (output'.map Prod.fst) (output.map Prod.fst) = true)
          ∧ asserts output' output = true ∧ asserts output' required = true := by
  rw [keepsCase, Bool.and_eq_true]
  refine and_congr_right' ?_
  constructor
  · intro holds
    split at holds
    · next output output' required isOutput isOutput' isRequired =>
        rw [Bool.and_eq_true, Bool.and_eq_true, Bool.or_eq_true] at holds
        exact ⟨output, output', required, isOutput, isOutput', isRequired, holds.1.1, holds.1.2, holds.2⟩
    · cases holds
  · rintro ⟨output, output', required, isOutput, isOutput', isRequired, within, keeps, holds⟩
    simp only [isOutput, isOutput', isRequired]
    rw [Bool.and_eq_true, Bool.and_eq_true, Bool.or_eq_true]
    exact ⟨⟨within, keeps⟩, holds⟩

/-- **Keeping a case composes.** -/
theorem keepsCase_trans (first : keepsCase contracts name original proposed = true)
    (second : keepsCase contracts name proposed later = true) :
    keepsCase contracts name original later = true := by
  obtain ⟨same, output, output', _, isOutput, isOutput', -, within, keeps, -⟩ := keepsCase_iff.mp first
  obtain ⟨same', _, output'', required, isProposed, isOutput'', isRequired, within', keeps', holds⟩ :=
    keepsCase_iff.mp second
  cases isOutput'.symm.trans isProposed
  refine keepsCase_iff.mpr ⟨valuesEqual_trans same' same, output, output'', required, isOutput,
    isOutput'', isRequired, ?_, asserts_trans keeps keeps', holds⟩
  rcases within' with contracted | within'
  · exact .inl contracted
  · exact within.imp_right (keysWithin_trans within')

/-! ### New cases -/

theorem get?_withoutOutput {field : String} (other : field ≠ "output") (case : Members) :
    get? (withoutOutput case) field = get? case field := by
  have keys : field.toList ≠ "output".toList := fun same => other (String.toList_inj.mp same)
  rw [get?, get?, lookupBy, lookupBy, withoutOutput, List.find?_filter]
  refine congrArg (Option.map Prod.snd) (congrArg (List.find? · case) ?_)
  funext member
  rw [Bool.eq_iff_iff]
  simp only [Scalar.key_text, decide_eq_true_eq, ne_eq, and_iff_right_iff_imp]
  intro isField isOutput
  exact keys (Key.text.inj ((of_decide_eq_true isField).symm.trans isOutput))

/-- The fields besides the output are the same. -/
theorem valuesEqual_field {field : String} (other : field ≠ "output")
    (present : (get? later field).isSome)
    (same : valuesEqual (.map (withoutOutput later)) (.map (withoutOutput proposed)) = true) :
    valuesEqual (Value.field later field) (Value.field proposed field) = true := by
  obtain ⟨value, isValue⟩ := Option.isSome_iff_exists.mp present
  rw [← get?_withoutOutput other] at isValue
  obtain ⟨key, isMember, isKey⟩ := lookupBy_eq_some isValue
  obtain ⟨held, found, sameValue⟩ := (valuesEqual_map.mp same).2 _ isMember
  have isHeld : get? proposed field = some held := by
    rw [← get?_withoutOutput other, get?, ← found]
    exact lookupBy_congr _ isKey.symm
  rw [get?_withoutOutput other] at isValue
  simpa only [Value.field, isValue, isHeld, Option.getD_some] using sameValue

theorem keysAre_iff {names : List String} :
    keysAre as names = true
      ↔ (∀ member ∈ as, ∃ name ∈ names, member.1.key = .text name.toList)
        ∧ ∀ name ∈ names, (get? as name).isSome := by
  rw [keysAre, Bool.and_eq_true, keysWithin_iff, keysWithin_iff, List.forall_mem_map,
    List.forall_mem_map]
  refine and_congr (forall₂_congr fun member _ => ?_) (forall₂_congr fun name _ => ?_)
  · simp [eq_comm]
  · rw [get?, lookupBy_isSome]
    simp

/-- What `meetsContract` says. -/
theorem meetsContract_iff {case : Members} :
    meetsContract contracts name case = true
      ↔ ∃ contract, contractOf contracts name = some contract
        ∧ keysAre case ["name", "period", "input", "output"] = true
        ∧ valuesEqual (field case "name") (.scalar (.text name)) = true
        ∧ valuesEqual (field case "period") (field contract.members "period") = true
        ∧ valuesEqual (field case "input") (field contract.members "input") = true
        ∧ ∃ output required, get? case "output" = some (.map output)
          ∧ get? contract.members "required_output" = some (.map required)
          ∧ asserts output required = true := by
  have isField {members output : Members} {name : String} :
      field members name = .map output ↔ get? members name = some (.map output) := by
    rw [field]
    cases get? members name <;> simp
  rw [meetsContract]
  cases contractOf contracts name with
  | none => simp
  | some contract =>
    simp only [Bool.and_eq_true, Option.some.injEq, exists_eq_left', and_assoc]
    refine and_congr_right' (and_congr_right' (and_congr_right' (and_congr_right' ?_)))
    constructor
    · intro holds
      split at holds
      · next output required isOutput isRequired =>
          exact ⟨output, required, isField.mp isOutput, isField.mp isRequired, holds⟩
      · cases holds
    · rintro ⟨output, required, isOutput, isRequired, holds⟩
      simpa only [isField.mpr isOutput, isField.mpr isRequired] using holds

/-- **A new case that is kept is still the one of its contract.** -/
theorem meetsContract_trans (first : meetsContract contracts name proposed = true)
    (second : keepsCase contracts name proposed later = true) :
    meetsContract contracts name later = true := by
  obtain ⟨contract, isContract, keys, sameName, samePeriod, sameInput, output, required, isOutput,
    isRequired, holds⟩ := meetsContract_iff.mp first
  obtain ⟨same, _, output', required', isProposed, isOutput', isRequired', -, keeps, holds'⟩ :=
    keepsCase_iff.mp second
  obtain ⟨within, within'⟩ := keysAre_iff.mp keys
  have keyWithin := (valuesEqual_map.mp same).1
  have present (name : String) (declared : name ∈ ["name", "period", "input"]) :
      (get? later name).isSome := by
    have other : name ≠ "output" := by
      rintro rfl
      simp at declared
    have isSome := within' name (by simp at declared ⊢; tauto)
    rw [← get?_withoutOutput other, get?, lookupBy_isSome] at isSome ⊢
    obtain ⟨member, isMember, isKey⟩ := isSome
    obtain ⟨key, isLater, sameKey⟩ :=
      keysWithin_iff.mp keyWithin.2 member.1 (List.mem_map_of_mem isMember)
    obtain ⟨member', isMember', rfl⟩ := List.mem_map.mp isLater
    exact ⟨member', isMember', sameKey.trans isKey⟩
  refine meetsContract_iff.mpr ⟨contract, isContract, keysAre_iff.mpr ⟨?_, ?_⟩, ?_, ?_, ?_,
    output', required, isOutput', isRequired, ?_⟩
  · intro member isMember
    by_cases isOutputKey : member.1.key = .text "output".toList
    · exact ⟨"output", by simp, isOutputKey⟩
    · have kept : member ∈ withoutOutput later :=
        List.mem_filter.mpr ⟨isMember, decide_eq_true isOutputKey⟩
      obtain ⟨key, isKey, sameKey⟩ :=
        keysWithin_iff.mp keyWithin.1 member.1 (List.mem_map_of_mem kept)
      obtain ⟨member', isMember', rfl⟩ := List.mem_map.mp isKey
      obtain ⟨name, declared, isName⟩ := within member' (List.mem_filter.mp isMember').1
      exact ⟨name, declared, sameKey.symm.trans isName⟩
  · intro name declared
    by_cases isOutputName : name = "output"
    · rw [isOutputName, isOutput']
      rfl
    · exact present name (by simp at declared ⊢; tauto)
  · exact valuesEqual_trans (valuesEqual_field (by decide) (present "name" (by simp)) same) sameName
  · exact valuesEqual_trans (valuesEqual_field (by decide) (present "period" (by simp)) same) samePeriod
  · exact valuesEqual_trans (valuesEqual_field (by decide) (present "input" (by simp)) same) sameInput
  · rw [isContract, requiredOutput, isRequired, Option.getD_some] at isRequired'
    cases isRequired'
    exact holds'

end Cases

/-! ## Files -/

section Files

variable {load : List Char → Option Document} {contracts : List Contract} {o p q : List Char}
  {originals proposals laters : Indexed}

/-- The conditions on the cases. -/
structure Keeps (contracts : List Contract) (originals proposals : Indexed) : Prop where
  named : ∀ case ∈ proposals, (originals.lookup case.1).isSome ∨ (contractOf contracts case.1).isSome
  kept : ∀ case ∈ originals, ∃ proposed, proposals.lookup case.1 = some proposed
    ∧ keepsCase contracts case.1 case.2 proposed = true
  met : ∀ case ∈ proposals, originals.lookup case.1 = none → meetsContract contracts case.1 case.2 = true

theorem keeps_iff :
    (proposals.all (fun case =>
          (originals.lookup case.1).isSome || (contractOf contracts case.1).isSome)
      && originals.all (fun case =>
          match proposals.lookup case.1 with
          | some proposed => keepsCase contracts case.1 case.2 proposed
          | none => false)
      && (proposals.filter fun case => (originals.lookup case.1).isNone).all
          fun case => meetsContract contracts case.1 case.2) = true
      ↔ Keeps contracts originals proposals := by
  rw [Bool.and_eq_true, Bool.and_eq_true, List.all_eq_true, List.all_eq_true, List.all_eq_true]
  have isKept (case : List Char × Members) :
      (match proposals.lookup case.1 with
        | some proposed => keepsCase contracts case.1 case.2 proposed
        | none => false) = true
        ↔ ∃ proposed, proposals.lookup case.1 = some proposed
          ∧ keepsCase contracts case.1 case.2 proposed = true := by
    cases proposals.lookup case.1 <;> simp
  constructor
  · rintro ⟨⟨named, kept⟩, met⟩
    exact {
      named := fun case declared => Bool.or_eq_true_iff.mp (named case declared)
      kept := fun case declared => (isKept case).mp (kept case declared)
      met := fun case declared isNew =>
        met case (List.mem_filter.mpr ⟨declared, Option.isNone_iff_eq_none.mpr isNew⟩) }
  · rintro ⟨named, kept, met⟩
    refine ⟨⟨fun case declared => Bool.or_eq_true_iff.mpr (named case declared),
      fun case declared => (isKept case).mpr (kept case declared)⟩, fun case declared => ?_⟩
    obtain ⟨declared, isNew⟩ := List.mem_filter.mp declared
    exact met case declared (Option.isNone_iff_eq_none.mp isNew)

/-- What acceptance says. -/
theorem accepted_iff :
    preservesCompanionTestCases load o p contracts = some true
      ↔ ∃ original proposed originals proposals, load o = some original ∧ load p = some proposed
        ∧ isDict original.value = isDict proposed.value
        ∧ indexedCases load o = some originals ∧ indexedCases load p = some proposals
        ∧ (contractNames contracts).any (fun name => !hashable name) = false
        ∧ contractsIndexed contracts = true ∧ Keeps contracts originals proposals := by
  have isList {content : List Char} {document : Document} {indexed : Indexed}
      (isDocument : load content = some document) (isIndexed : indexedCases load content = some indexed) :
      caseList document.value ≠ none := by
    rw [indexedCases, isDocument, Option.bind_some] at isIndexed
    obtain ⟨cases, isCases, -⟩ := Option.bind_eq_some_iff.mp isIndexed
    rw [isCases]
    exact Option.some_ne_none _
  rw [preservesCompanionTestCases]
  constructor
  · intro accepted
    split at accepted
    · next original proposed isOriginal isProposed =>
        split at accepted
        · cases accepted
        split at accepted
        · cases accepted
        · next shape =>
            split at accepted
            · next originals proposals isOriginals isProposals =>
                split at accepted
                · cases accepted
                · next hashed =>
                    split at accepted
                    · cases accepted
                    · next indexed =>
                        exact ⟨original, proposed, originals, proposals, isOriginal, isProposed,
                          not_not.mp shape, isOriginals, isProposals, Bool.not_eq_true _ ▸ hashed,
                          by simpa using indexed, keeps_iff.mp (Option.some.inj accepted)⟩
            · cases accepted
    · cases accepted
  · rintro ⟨original, proposed, originals, proposals, isOriginal, isProposed, shape, isOriginals,
      isProposals, hashed, indexed, keeps⟩
    have lists : ¬ (caseList original.value = none ∨ caseList proposed.value = none) := by
      rintro (isNone | isNone)
      · exact isList isOriginal isOriginals isNone
      · exact isList isProposed isProposals isNone
    simp only [isOriginal, isProposed, if_neg lists, shape, ne_eq, not_true_eq_false, if_false,
      isOriginals, isProposals, hashed, Bool.false_eq_true, indexed, Bool.not_true]
    exact congrArg some (keeps_iff.mpr keeps)

theorem mem_of_lookup {name : List Char} {case : Members} {indexed : Indexed}
    (found : indexed.lookup name = some case) : (name, case) ∈ indexed := by
  obtain ⟨before, after, rfl, -⟩ := List.lookup_eq_some_iff.mp found
  simp

theorem lookup_of_mem {name : List Char} {case : Members} : ∀ {indexed : Indexed},
    (indexed.map Prod.fst).Nodup → (name, case) ∈ indexed → indexed.lookup name = some case
  | [], _, isCase => nomatch isCase
  | (other, held) :: indexed, distinct, isCase => by
    rw [List.map_cons, List.nodup_cons] at distinct
    rcases List.mem_cons.mp isCase with same | isLater
    · cases same
      exact List.lookup_cons_self
    · have differs : name ≠ other := by
        rintro rfl
        exact distinct.1 (List.mem_map.mpr ⟨_, isLater, rfl⟩)
      rw [List.lookup_cons, beq_eq_false_iff_ne.mpr differs]
      exact lookup_of_mem distinct.2 isLater

/-- The names of the cases are distinct. -/
theorem nodup_byName : ∀ (cases : List Value) (indexed : Indexed), (indexed.map Prod.fst).Nodup →
    ∀ {result : Indexed}, byName cases indexed = some result → (result.map Prod.fst).Nodup := by
  intro cases
  induction cases with
  | nil =>
    intro indexed distinct result isResult
    cases isResult
    exact distinct
  | cons case cases ih =>
    intro indexed distinct result isResult
    cases case with
    | map members =>
      rw [byName] at isResult
      split at isResult
      · next name isName =>
          by_cases used : name = [] ∨ name ∈ indexed.map Prod.fst
          · rw [if_pos used] at isResult
            cases isResult
          · rw [if_neg used] at isResult
            refine ih _ ?_ isResult
            rw [List.map_append, List.map_singleton]
            exact List.Nodup.append distinct (List.nodup_singleton _)
              (List.disjoint_singleton.mpr fun isUsed => used (.inr isUsed))
      · cases isResult
    | _ => cases isResult

/-- **Keeping the cases composes.** -/
theorem Keeps.trans (distinct : (laters.map Prod.fst).Nodup) (first : Keeps contracts originals proposals)
    (second : Keeps contracts proposals laters) : Keeps contracts originals laters where
  named := by
    intro case declared
    rcases second.named case declared with isProposal | contracted
    · obtain ⟨proposed, found⟩ := Option.isSome_iff_exists.mp isProposal
      exact first.named (case.1, proposed) (mem_of_lookup found)
    · exact .inr contracted
  kept := by
    intro case declared
    obtain ⟨proposed, found, keeps⟩ := first.kept case declared
    obtain ⟨later, found', keeps'⟩ := second.kept (case.1, proposed) (mem_of_lookup found)
    exact ⟨later, found', keepsCase_trans keeps keeps'⟩
  met := by
    intro case declared isNew
    cases found : proposals.lookup case.1 with
    | none => exact second.met case declared found
    | some proposed =>
      have meets := first.met (case.1, proposed) (mem_of_lookup found) isNew
      obtain ⟨later, found', keeps⟩ := second.kept (case.1, proposed) (mem_of_lookup found)
      cases found'.symm.trans (lookup_of_mem distinct declared)
      exact meetsContract_trans meets keeps

/-- **Acceptance composes.** -/
theorem preserves_trans (first : preservesCompanionTestCases load o p contracts = some true)
    (second : preservesCompanionTestCases load p q contracts = some true) :
    preservesCompanionTestCases load o q contracts = some true := by
  obtain ⟨original, proposed, originals, proposals, isOriginal, isProposed, shape, isOriginals,
    isProposals, hashed, indexed, keeps⟩ := accepted_iff.mp first
  obtain ⟨_, later, _, laters, isProposed', isLater, shape', isProposals', isLaters, -, -, keeps'⟩ :=
    accepted_iff.mp second
  cases isProposed.symm.trans isProposed'
  cases isProposals.symm.trans isProposals'
  refine accepted_iff.mpr ⟨original, later, originals, laters, isOriginal, isLater, shape.trans shape',
    isOriginals, isLaters, hashed, indexed, Keeps.trans ?_ keeps keeps'⟩
  rw [indexedCases, isLater, Option.bind_some] at isLaters
  obtain ⟨cases, -, isIndexed⟩ := Option.bind_eq_some_iff.mp isLaters
  exact nodup_byName cases [] List.nodup_nil isIndexed

end Files

end AxiomEncode.Repair

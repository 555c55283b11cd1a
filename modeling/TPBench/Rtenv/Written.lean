import TPBench.Rtenv.MergeRecord

/-!
# Variables that Were Written, Merged

The writers of runtime environment records number the variables, print the number into the
names of four headers each, and lay out the payload in the order of the headers. This module
follows a merge through such a record: the names determine part and number
(`VarField.headerName_inj`), the positions computed from header sizes are those of the
writer, and the loop over the headers is a loop over the variables
(`Written.foldlM_varStep`).

The headers of the variables may stand between others, such as those of the applications and
of the children. All that is asked of these is that their names have no bracket.
-/

open CFile Capped

namespace TPBench

/-! ### Names -/

section Names

variable {f g : VarField} {i j : ℕ}

/-- The name of a part is made of the number of the variable. -/
theorem VarField.nameOf_natCast (f : VarField) (i : ℕ) : f.nameOf i = f.headerName i := by
  rw [VarField.nameOf, VarField.headerName, formatInt_natCast]

/-- A word and the number in brackets. -/
theorem VarField.headerName_eq (f : VarField) (i : ℕ) :
    f.headerName i = f.word ++ 91 :: (formatD i ++ [93]) := by
  simp [VarField.headerName, ascii]

/-- The name of a header determines the part and the number. -/
theorem VarField.headerName_inj (h : f.headerName i = g.headerName j) : f = g ∧ i = j := by
  rw [VarField.headerName_eq, VarField.headerName_eq] at h
  have hword : ∀ (f : VarField) (bs : Bytes),
      (f.word ++ 91 :: bs).takeWhile (· ≠ 91) = f.word := by
    intro f bs
    have hne : ∀ b ∈ f.word, decide (b ≠ 91) = true :=
      List.all_eq_true.mp (by cases f <;> rfl)
    rw [List.takeWhile_append_of_pos hne, List.takeWhile_cons_of_neg (by decide),
      List.append_nil]
  have hwords : f.word = g.word := by
    rw [← hword f (formatD i ++ [93]), h, hword]
  have hfields : f = g := by
    revert hwords
    cases f <;> cases g <;> decide
  subst hfields
  refine ⟨rfl, formatD_injective ?_⟩
  simpa using h

theorem not_zero_mem_formatD (n : ℕ) : 0 ∉ formatD n := fun h => by
  cases isdigit_of_mem_formatD h

/-- There is no zero byte in it. -/
theorem VarField.not_zero_mem_headerName (f : VarField) (i : ℕ) : 0 ∉ f.headerName i := by
  have hword : (0 : UInt8) ∉ f.word := by cases f <;> decide
  rw [VarField.headerName_eq]
  simp [hword, not_zero_mem_formatD]

/-- It fits its array. -/
theorem VarField.length_headerName_lt (f : VarField) (hi : i ≤ intMax) :
    (f.headerName i).length < 256 := by
  have hword : f.word.length ≤ 6 := by cases f <;> decide
  have hdigits := length_formatD_le hi
  rw [VarField.headerName_eq]
  simp only [List.length_append, List.length_cons, List.length_nil]
  omega

/-- The bytes of the name of a header of a variable. -/
theorem name_fieldHeader (f : VarField) (hi : i ≤ intMax) (size : ℕ) :
    ∃ bs, (fieldHeader f i size).name.toList = f.word ++ 91 :: (formatD i ++ 93 :: bs) := by
  have hname : (fieldHeader f i size).name.toList = _ :=
    toList_snprintfS (f.not_zero_mem_headerName i) (f.length_headerName_lt hi)
  rw [hname, f.headerName_eq, List.append_assoc, List.cons_append, List.append_assoc]
  exact ⟨_, rfl⟩

/-- The name that it holds. -/
theorem cstr_fieldHeader (f : VarField) (hi : i ≤ intMax) (size : ℕ) :
    cstr (fieldHeader f i size).name.toList = f.headerName i :=
  cstr_snprintfS (f.not_zero_mem_headerName i) (f.length_headerName_lt hi)

end Names

/-! ### Layout -/

/-- The headers of variables with numbers from `n` on. -/
def varsFrom (n : ℕ) (vars : List EnvVar) : List MetaHeader :=
  (vars.zipIdx n).flatMap fun v => varHeaders v.1 v.2

section Layout

variable {n : ℕ} {x : EnvVar} {vars : List EnvVar}

theorem varsFrom_cons : varsFrom n (x :: vars) = varHeaders x n ++ varsFrom (n + 1) vars := rfl

/-- The headers of variables behind variables. -/
theorem varsFrom_append (vars vars' : List EnvVar) :
    varsFrom n (vars ++ vars') = varsFrom n vars ++ varsFrom (n + vars.length) vars' := by
  rw [varsFrom, List.zipIdx_append, List.flatMap_append]
  rfl

/-- A variable has four headers. -/
theorem length_varsFrom : (varsFrom n vars).length = 4 * vars.length := by
  simp [varsFrom, List.length_flatMap, varHeaders, Nat.mul_comm]

/-- The size of a variable. -/
theorem length_varPayload (x : EnvVar) :
    (varPayload x).length = x.key.length + 1 + (x.value.length + 1) + 4 + 4 := by
  simp only [varPayload, List.length_append, length_u32, List.length_singleton]

/-- A header claims the size it was made with. -/
theorem claimed_fieldHeader (f : VarField) {size : ℕ} (hsize : size < 2 ^ 64)
    (hs : List MetaHeader) : claimed (fieldHeader f n size :: hs) = size + claimed hs := by
  rw [claimed_cons]
  exact congrArg (· + claimed hs) (Nat.mod_eq_of_lt hsize)

/-- The headers of a variable claim its payload. -/
theorem claimed_varHeaders (hlen : (varPayload x).length < 2 ^ 64) :
    claimed (varHeaders x n) = (varPayload x).length := by
  rw [length_varPayload] at hlen ⊢
  simp (disch := omega) only [varHeaders, claimed_fieldHeader, claimed_nil]
  omega

/-- The headers of variables claim their payload. -/
theorem claimed_varsFrom (hlen : (vars.flatMap varPayload).length < 2 ^ 64) :
    claimed (varsFrom n vars) = (vars.flatMap varPayload).length := by
  induction vars generalizing n with
  | nil => rfl
  | cons x vars ih =>
      rw [List.flatMap_cons, List.length_append] at hlen ⊢
      rw [varsFrom_cons, claimed_append, claimed_varHeaders (by omega), ih (by omega)]

/-- The position of a header in the payload is what the headers in front of it claim. -/
theorem sfHdrPayloadOff_append {hs hs' : List MetaHeader} {k : ℕ} (hk : hs.length = k)
    (hlen : claimed hs < 2 ^ 64) : sfHdrPayloadOff (hs ++ hs') k = claimed hs := by
  subst hk
  exact sfHeaderDataOffset_append hlen

end Layout

/-! ### The parts of one variable -/

/-- A header that has no part of variable number `i`. -/
def Foreign (i : ℕ) (h : MetaHeader) : Prop :=
  ∀ f : VarField, cstr h.name.toList ≠ f.headerName i

section Parts

variable {hdrs pre post : List MetaHeader} {data a b : Bytes} {x : EnvVar} {i : ℕ}

/-- A name without a bracket is not the name of a part. -/
theorem foreign_of_bracket {h : MetaHeader} (hname : 91 ∉ cstr h.name.toList) :
    Foreign i h := by
  intro f heq
  rw [heq, VarField.headerName_eq] at hname
  exact hname (by simp)

/-- The parts of another variable. -/
theorem foreign_of_ne {h : MetaHeader} {j : ℕ} (hj : j ≤ intMax) (hne : j ≠ i)
    (hmem : h ∈ varHeaders x j) : Foreign i h := by
  intro f heq
  simp only [varHeaders, List.mem_cons, List.not_mem_nil, or_false] at hmem
  rcases hmem with rfl | rfl | rfl | rfl
  all_goals
    rw [cstr_fieldHeader _ hj] at heq
    exact hne (VarField.headerName_inj heq).2

/-- A header of something else is passed over. -/
theorem partsStep_foreign {h : MetaHeader × ℕ} (hh : Foreign i h.1) (y : VarParts) :
    partsStep hdrs data i y h = pure y := by
  rw [partsStep]
  simp only [VarField.nameOf_natCast, hh .value, hh .onSet, hh .onGet, false_and, if_false]

/-- A loop that does nothing in each round. -/
theorem foldlM_skip {α β : Type} {f : α → β → WsM α} {xs : List β}
    (h : ∀ y ∈ xs, ∀ a, f a y = pure a) (a : α) : xs.foldlM f a = pure a := by
  induction xs with
  | nil => rfl
  | cons y xs ih =>
      rw [List.foldlM_cons, h y (by simp), pure_bind]
      exact ih fun z hz => h z (by simp [hz])

/-- So are all of them. -/
theorem foldlM_partsStep_foreign {hs : List MetaHeader} (hhs : ∀ h ∈ hs, Foreign i h) (n : ℕ)
    (y : VarParts) : (hs.zipIdx n).foldlM (partsStep hdrs data i) y = pure y := by
  refine foldlM_skip ?_ y
  intro h hh y
  exact partsStep_foreign (hhs h.1 (List.fst_mem_of_mem_zipIdx hh)) y

/-- A variable in a record: its headers between headers that have none of its parts, and its
payload at the position the headers in front of it claim. -/
structure Placed (pre post : List MetaHeader) (a b : Bytes) (i : ℕ) (x : EnvVar) : Prop where
  pre_foreign : ∀ h ∈ pre, Foreign i h
  post_foreign : ∀ h ∈ post, Foreign i h
  claimed_pre : claimed pre = a.length
  index_le : i ≤ intMax
  size_lt : (a ++ varPayload x ++ b).length < 2 ^ 64
  key_str : 0 ∉ x.key
  value_str : 0 ∉ x.value

namespace Placed

variable (w : Placed pre post a b i x)
include w

/-- The sizes of the headers do not overflow. -/
theorem length_lt : a.length + (varPayload x).length < 2 ^ 64 := by
  have hsize := w.size_lt
  simp only [List.length_append] at hsize
  omega

/-- The position behind the parts `c` of the variable, which the headers `hs` claim. -/
theorem payloadOff (k : ℕ) {hs hs' : List MetaHeader} {c : Bytes}
    (hsplit : varHeaders x i = hs ++ hs') (hc : claimed hs = c.length)
    (hk : pre.length + hs.length = k) :
    sfHdrPayloadOff (pre ++ varHeaders x i ++ post) k = (a ++ c).length := by
  have hlt := w.length_lt
  have hclaimed : claimed (varHeaders x i) = (varPayload x).length :=
    claimed_varHeaders (by omega)
  rw [hsplit, claimed_append, hc] at hclaimed
  have hassoc : pre ++ varHeaders x i ++ post = (pre ++ hs) ++ (hs' ++ post) := by
    simp [hsplit]
  have hsum : claimed (pre ++ hs) = (a ++ c).length := by
    rw [claimed_append, w.claimed_pre, hc, List.length_append]
  rw [hassoc, sfHdrPayloadOff_append (List.length_append.trans hk), hsum]
  rw [hsum, List.length_append]
  omega

/-- The name of the variable is read. -/
theorem strAt_key : strAt (a ++ varPayload x ++ b)
    (sfHdrPayloadOff (pre ++ varHeaders x i ++ post) pre.length) = some x.key := by
  have hsplit : a ++ varPayload x ++ b = (a ++ []) ++ (x.key ++ 0 :: ((x.value ++ [0]) ++
      u32 x.onSet ++ u32 x.onGet ++ b)) := by simp [varPayload]
  rw [w.payloadOff (c := []) pre.length (List.nil_append _).symm rfl rfl, hsplit]
  exact strAt_append w.key_str _ _

/-- The value of the variable is read. -/
theorem strAt_value : strAt (a ++ varPayload x ++ b)
    (sfHdrPayloadOff (pre ++ varHeaders x i ++ post) (pre.length + 1)) = some x.value := by
  have hlt := w.length_lt
  rw [length_varPayload] at hlt
  have hclaimed : claimed [fieldHeader .key i (x.key.length + 1)] = (x.key ++ [0]).length := by
    simp (disch := omega) only [claimed_fieldHeader, claimed_nil, List.length_append]
    rfl
  have hsplit : a ++ varPayload x ++ b = (a ++ (x.key ++ [0])) ++ (x.value ++ 0 ::
      (u32 x.onSet ++ u32 x.onGet ++ b)) := by simp [varPayload]
  rw [w.payloadOff (pre.length + 1) rfl hclaimed rfl, hsplit]
  exact strAt_append w.value_str _ _

/-- What is done when it is set is read. -/
theorem u32At_onSet : u32At (a ++ varPayload x ++ b)
    (sfHdrPayloadOff (pre ++ varHeaders x i ++ post) (pre.length + 2)) = some x.onSet := by
  have hlt := w.length_lt
  rw [length_varPayload] at hlt
  have hclaimed : claimed [fieldHeader .key i (x.key.length + 1),
      fieldHeader .value i (x.value.length + 1)] = (x.key ++ [0] ++ (x.value ++ [0])).length := by
    simp (disch := omega) only [claimed_fieldHeader, claimed_nil, List.length_append]
    rfl
  have hsplit : a ++ varPayload x ++ b = (a ++ (x.key ++ [0] ++ (x.value ++ [0]))) ++
      (u32 x.onSet ++ (u32 x.onGet ++ b)) := by simp [varPayload]
  rw [w.payloadOff (pre.length + 2) rfl hclaimed rfl, hsplit]
  exact u32At_append _ _ _

/-- What is done when it is asked for is read. -/
theorem u32At_onGet : u32At (a ++ varPayload x ++ b)
    (sfHdrPayloadOff (pre ++ varHeaders x i ++ post) (pre.length + 3)) = some x.onGet := by
  have hlt := w.length_lt
  rw [length_varPayload] at hlt
  have hclaimed : claimed [fieldHeader .key i (x.key.length + 1),
      fieldHeader .value i (x.value.length + 1), fieldHeader .onSet i 4] =
      (x.key ++ [0] ++ (x.value ++ [0]) ++ u32 x.onSet).length := by
    simp (disch := omega) only [claimed_fieldHeader, claimed_nil, List.length_append, length_u32,
      List.length_singleton]
    omega
  have hsplit : a ++ varPayload x ++ b = (a ++ (x.key ++ [0] ++ (x.value ++ [0]) ++
      u32 x.onSet)) ++ (u32 x.onGet ++ b) := by simp [varPayload]
  rw [w.payloadOff (pre.length + 3) rfl hclaimed rfl, hsplit]
  exact u32At_append _ _ _

/-- The inner loop finds the parts of the variable. -/
theorem findParts_eq : findParts (pre ++ varHeaders x i ++ post) (a ++ varPayload x ++ b) i =
    pure ⟨some x.value, x.onSet, x.onGet⟩ := by
  have hname : ∀ f size, cstr (fieldHeader f i size).name.toList = f.headerName i :=
    fun f size => cstr_fieldHeader f w.index_le size
  have hne : ∀ f g : VarField, f ≠ g → f.headerName i ≠ g.headerName i :=
    fun f g hfg heq => hfg (VarField.headerName_inj heq).1
  have hfour : ∀ f, (4 : UInt64) ≤ (fieldHeader f i 4).dataSize := by
    intro f
    exact UInt64.le_refl 4
  have hzip : (varHeaders x i).zipIdx pre.length =
      [(fieldHeader .key i (x.key.length + 1), pre.length),
        (fieldHeader .value i (x.value.length + 1), pre.length + 1),
        (fieldHeader .onSet i 4, pre.length + 2), (fieldHeader .onGet i 4, pre.length + 3)] :=
    rfl
  rw [findParts, List.zipIdx_append, List.zipIdx_append, List.foldlM_append,
    List.foldlM_append, foldlM_partsStep_foreign w.pre_foreign, pure_bind, Nat.zero_add, hzip]
  simp only [List.foldlM_cons, List.foldlM_nil, partsStep, hname, VarField.nameOf_natCast,
    hne .key .value (by decide), hne .key .onSet (by decide), hne .key .onGet (by decide),
    hne .onSet .value (by decide), hne .onGet .value (by decide),
    hne .onGet .onSet (by decide), hfour, w.strAt_value, w.u32At_onSet, w.u32At_onGet, deref,
    true_and, false_and, if_true, if_false, pure_bind]
  exact foldlM_partsStep_foreign w.post_foreign _ _

end Placed

end Parts

/-! ### All variables -/

/-- The variables of a record: their headers between headers without brackets in their
names, and their payload at the position the headers in front claim. -/
structure Written (pre post : List MetaHeader) (a b : Bytes) (vars : List EnvVar) : Prop where
  pre_names : ∀ h ∈ pre, 91 ∉ cstr h.name.toList
  post_names : ∀ h ∈ post, 91 ∉ cstr h.name.toList
  claimed_pre : claimed pre = a.length
  count_le : vars.length ≤ intMax
  size_lt : (a ++ vars.flatMap varPayload ++ b).length < 2 ^ 64
  strings : ∀ x ∈ vars, 0 ∉ x.key ∧ 0 ∉ x.value

section Written

variable {hdrs pre post : List MetaHeader} {data a b : Bytes} {vars : List EnvVar}
  {maxVar : ℕ}

/-- Every variable has its place. -/
theorem Written.placed {vs vs' : List EnvVar} {x : EnvVar}
    (w : Written pre post a b (vs ++ x :: vs')) :
    Placed (pre ++ varsFrom 0 vs) (varsFrom (vs.length + 1) vs' ++ post)
      (a ++ vs.flatMap varPayload) (vs'.flatMap varPayload ++ b) vs.length x := by
  have hcount := w.count_le
  have hsize := w.size_lt
  rw [List.length_append, List.length_cons] at hcount
  have hsplit : a ++ vs.flatMap varPayload ++ varPayload x ++ (vs'.flatMap varPayload ++ b) =
      a ++ (vs ++ x :: vs').flatMap varPayload ++ b := by simp
  obtain ⟨hkey, hvalue⟩ := w.strings x (by simp)
  refine ⟨?_, ?_, ?_, by omega, by rwa [hsplit], hkey, hvalue⟩
  · intro h hh
    rcases List.mem_append.mp hh with hh | hh
    · exact foreign_of_bracket (w.pre_names h hh)
    · obtain ⟨y, hy, hmem⟩ := List.mem_flatMap.mp hh
      have hlt := List.snd_lt_of_mem_zipIdx hy
      exact foreign_of_ne (by omega) (by omega) hmem
  · intro h hh
    rcases List.mem_append.mp hh with hh | hh
    · obtain ⟨y, hy, hmem⟩ := List.mem_flatMap.mp hh
      have hlt := List.snd_lt_of_mem_zipIdx hy
      have hle := List.le_snd_of_mem_zipIdx hy
      exact foreign_of_ne (by omega) (by omega) hmem
    · exact foreign_of_bracket (w.post_names h hh)
  · rw [← hsplit] at hsize
    simp only [List.length_append] at hsize
    rw [claimed_append, w.claimed_pre, claimed_varsFrom (by omega), List.length_append]

/-- A header without a bracket in its name declares no variable. -/
theorem varStep_of_bracket {h : MetaHeader × ℕ} (hname : 91 ∉ cstr h.1.name.toList)
    (out : Merged) : varStep maxVar hdrs data out h = pure out := by
  rw [varStep, if_neg]
  rintro ⟨hkey, -⟩
  have hsplit : h.1.name.toList = [107, 101, 121, 91] ++ h.1.name.toList.drop 4 := by
    rw [← List.take_append_drop 4 h.1.name.toList, hkey]
    rfl
  rw [hsplit] at hname
  exact hname (by simp [cstr])

/-- The headers of one variable merge the variable. -/
theorem Placed.foldlM_varStep {i : ℕ} {x : EnvVar} (w : Placed pre post a b i x)
    (out : Merged) :
    ((varHeaders x i).zipIdx pre.length).foldlM
        (varStep maxVar (pre ++ varHeaders x i ++ post) (a ++ varPayload x ++ b)) out =
      sfMergeAddVar maxVar (some x.key) (some x.value) x.onSet x.onGet out := by
  have hzip : (varHeaders x i).zipIdx pre.length =
      [(fieldHeader .key i (x.key.length + 1), pre.length),
        (fieldHeader .value i (x.value.length + 1), pre.length + 1),
        (fieldHeader .onSet i 4, pre.length + 2), (fieldHeader .onGet i 4, pre.length + 3)] :=
    rfl
  have hdata : a ++ varPayload x ++ b ≠ [] := by simp [varPayload]
  have hskip : ∀ (f : VarField) (size k : ℕ) (out : Merged), f ≠ .key →
      varStep maxVar (pre ++ varHeaders x i ++ post) (a ++ varPayload x ++ b) out
        (fieldHeader f i size, k) = pure out := by
    intro f size k out hf
    obtain ⟨bs, hbs⟩ := name_fieldHeader f w.index_le size
    rw [varStep, if_neg]
    rintro ⟨hkey, -⟩
    rw [hbs] at hkey
    revert hkey hf
    cases f <;> simp [VarField.word, ascii]
  have hkey : varStep maxVar (pre ++ varHeaders x i ++ post) (a ++ varPayload x ++ b) out
      (fieldHeader .key i (x.key.length + 1), pre.length) =
      sfMergeAddVar maxVar (some x.key) (some x.value) x.onSet x.onGet out := by
    obtain ⟨bs, hbs⟩ := name_fieldHeader .key w.index_le (x.key.length + 1)
    have hword : VarField.word .key = [107, 101, 121] := rfl
    rw [varStep, hbs, hword, if_pos ⟨rfl, hdata⟩, w.strAt_key]
    have hatoi : atoi (formatD i ++ 93 :: bs) = some (i : ℤ) :=
      atoi_formatD w.index_le (by decide) bs
    change (deref (atoi (formatD i ++ 93 :: bs)) >>= _) = _
    rw [hatoi, deref, pure_bind, w.findParts_eq, pure_bind]
  rw [hzip]
  simp only [List.foldlM_cons, List.foldlM_nil, hkey, ne_eq, reduceCtorEq, not_false_eq_true,
    hskip, bind_pure]

/-- The loop over the headers of the variables `vs'`, behind those of `vs`. -/
theorem Written.foldlM_varsFrom {vs vs' : List EnvVar} (w : Written pre post a b vars)
    (hvars : vars = vs ++ vs') (out : Merged) :
    ((varsFrom vs.length vs').zipIdx (pre.length + 4 * vs.length)).foldlM
        (varStep maxVar (pre ++ varsFrom 0 vars ++ post)
          (a ++ vars.flatMap varPayload ++ b)) out =
      vs'.foldlM (fun out x =>
        sfMergeAddVar maxVar (some x.key) (some x.value) x.onSet x.onGet out) out := by
  induction vs' generalizing vs out with
  | nil => rfl
  | cons x vs' ih =>
      have hplaced : _ = sfMergeAddVar maxVar _ _ _ _ out :=
        (hvars ▸ w).placed.foldlM_varStep out
      have hhdrs : pre ++ varsFrom 0 vs ++ varHeaders x vs.length ++
          (varsFrom (vs.length + 1) vs' ++ post) = pre ++ varsFrom 0 vars ++ post := by
        rw [hvars, varsFrom_append, varsFrom_cons]
        simp
      have hdata : a ++ vs.flatMap varPayload ++ varPayload x ++
          (vs'.flatMap varPayload ++ b) = a ++ vars.flatMap varPayload ++ b := by
        rw [hvars]
        simp
      have hpos : (pre ++ varsFrom 0 vs).length = pre.length + 4 * vs.length := by
        rw [List.length_append, length_varsFrom]
      have hlen : (vs ++ [x]).length = vs.length + 1 := by simp
      have hnext := fun out => @ih (vs ++ [x]) (by simp [hvars]) out
      rw [hhdrs, hdata, hpos] at hplaced
      rw [varsFrom_cons, List.zipIdx_append, List.foldlM_append, List.foldlM_cons, hplaced]
      refine bind_congr fun out => ?_
      rw [← hnext out, hlen]
      rfl

/-- **The loop over the headers of a record is a loop over its variables.** -/
theorem Written.foldlM_varStep (w : Written pre post a b vars) (out : Merged) :
    (pre ++ varsFrom 0 vars ++ post).zipIdx.foldlM
        (varStep maxVar (pre ++ varsFrom 0 vars ++ post)
          (a ++ vars.flatMap varPayload ++ b)) out =
      vars.foldlM (fun out x =>
        sfMergeAddVar maxVar (some x.key) (some x.value) x.onSet x.onGet out) out := by
  have hother : ∀ (hs : List MetaHeader) (k : ℕ) (out : Merged),
      (∀ h ∈ hs, 91 ∉ cstr h.name.toList) → (hs.zipIdx k).foldlM
        (varStep maxVar (pre ++ varsFrom 0 vars ++ post)
          (a ++ vars.flatMap varPayload ++ b)) out = pure out := by
    intro hs k out hhs
    refine foldlM_skip ?_ out
    intro h hh out
    exact varStep_of_bracket (hhs h.1 (List.fst_mem_of_mem_zipIdx hh)) out
  rw [List.zipIdx_append, List.zipIdx_append, List.foldlM_append, List.foldlM_append,
    hother pre _ out w.pre_names, pure_bind, Nat.zero_add]
  have hvars : ((varsFrom 0 vars).zipIdx pre.length).foldlM
      (varStep maxVar (pre ++ varsFrom 0 vars ++ post)
        (a ++ vars.flatMap varPayload ++ b)) out = _ :=
    w.foldlM_varsFrom (List.nil_append vars).symm out
  rw [hvars]
  simp only [hother post _ _ w.post_names, bind_pure]

end Written

/-! ### New variables -/

/-- Variables with new and pairwise different keys that fit into their slots are added as
they are, while there are slots. -/
theorem foldlM_sfMergeAddVar {maxVar : ℕ} {vars : List EnvVar} {out : Merged}
    (hslots : out.vars.length + vars.length ≤ maxVar)
    (hkeys : ((out.vars ++ vars).map EnvVar.key).Nodup)
    (hfit : ∀ x ∈ vars, x.key.length < 256 ∧ x.value.length < 4096) :
    vars.foldlM (fun out x =>
        sfMergeAddVar maxVar (some x.key) (some x.value) x.onSet x.onGet out) out =
      pure { out with vars := out.vars ++ vars } := by
  induction vars generalizing out with
  | nil => simp
  | cons x vars ih =>
      obtain ⟨hkey, hvalue⟩ := hfit x (by simp)
      have hnew : out.vars.findIdx? (·.key = x.key) = none := by
        rw [List.findIdx?_eq_none_iff]
        intro y hy
        rw [List.map_append, List.nodup_append] at hkeys
        simpa using hkeys.2.2 y.key (List.mem_map_of_mem hy) x.key (by simp)
      rw [List.length_cons] at hslots
      have hadd : sfMergeAddVar maxVar (some x.key) (some x.value) x.onSet x.onGet out =
          pure { out with vars := out.vars ++ [x] } := by
        simp only [sfMergeAddVar, deref, pure_bind, hnew]
        rw [if_neg (by omega), cut, cut, List.take_of_length_le (by omega),
          List.take_of_length_le (by omega)]
      rw [List.foldlM_cons, hadd, pure_bind, ih]
      · simp
      · simp only [List.length_append, List.length_singleton]
        omega
      · simpa using hkeys
      · exact fun y hy => hfit y (by simp [hy])

/-! ### Snapshots -/

section Snapshots

variable {sys : SysEnv} {id : Int32} {name : Bytes} {vars : List EnvVar} {maxVar : ℕ}

/-- A reader stores the headers as they are. -/
theorem map_norm_varsFrom (n : ℕ) (vars : List EnvVar) :
    (varsFrom n vars).map MetaHeader.norm = varsFrom n vars := by
  induction vars generalizing n with
  | nil => rfl
  | cons x vars ih =>
      rw [varsFrom_cons, List.map_append, ih]
      rfl

/-- Merging a snapshot merges its variables. -/
theorem mergeView_snapshotRecord (hcount : 1 + vars.length * 4 ≤ intMax)
    (hsize : (vars.flatMap varPayload).length < 2 ^ 63)
    (hstr : ∀ x ∈ vars, 0 ∉ x.key ∧ 0 ∉ x.value) (out : Merged) :
    mergeView maxVar (snapshotRecord sys id name vars hcount hsize).view out =
      vars.foldlM (fun out x =>
        sfMergeAddVar maxVar (some x.key) (some x.value) x.onSet x.onGet out) out := by
  set v := (snapshotRecord sys id name vars hcount hsize).view with hv
  have hheaders : v.headers = [applicationHeader 0] ++ varsFrom 0 vars ++ [] := by
    change (applicationHeader 0).norm :: (varsFrom 0 vars).map MetaHeader.norm = _
    rw [map_norm_varsFrom, List.append_nil]
    rfl
  have hdata : v.data = [] ++ vars.flatMap varPayload ++ [] := by
    rw [List.append_nil]
    exact snapshotRecord_data hcount hsize
  have hnheader : v.headers.take (intCount v.attr.nheader) = v.headers := by
    have hlen : v.headers.length = v.attr.nheader.toNat := by
      rw [hv, Record.view, List.length_map]
      exact Record.nheader_eq _
    have hcast : v.attr.nheader.toNat = 1 + vars.length * 4 := by
      rw [← hlen, hheaders, List.append_nil, List.length_append, length_varsFrom,
        List.length_singleton, Nat.mul_comm]
    rw [intCount, if_pos (by omega), ← hlen, List.take_length]
  have hwritten : Written [applicationHeader 0] [] [] [] vars := by
    refine ⟨?_, by simp, rfl, by omega, ?_, hstr⟩
    · intro h hh
      rw [List.mem_singleton.mp hh]
      decide +kernel
    · rw [List.nil_append, List.append_nil]
      omega
  have happs : ∀ (hdrs : List MetaHeader) (out : Merged),
      hdrs.zipIdx.foldlM (appStep hdrs v.data v.attr.napp) out = pure out := by
    intro hdrs out
    refine foldlM_skip ?_ out
    intro h _ out
    rw [appStep, if_neg]
    rintro ⟨-, -, hpos⟩
    have hnapp : v.attr.napp = 0 := rfl
    rw [hnapp] at hpos
    exact absurd hpos (by decide)
  have hvars : _ = vars.foldlM (fun out x =>
      sfMergeAddVar maxVar (some x.key) (some x.value) x.onSet x.onGet out) out :=
    hwritten.foldlM_varStep out
  rw [← hheaders, ← hdata] at hvars
  simp only [mergeView, hnheader, happs, pure_bind]
  exact hvars

end Snapshots

end TPBench

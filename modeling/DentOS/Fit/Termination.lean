/-
  When the FIT parser comes to an end.

  Every pass of the token loop reads a tag inside the file and goes on behind it (`lt_of_hop`), so the
  token loop itself is bounded by the length of the file.  The loop of `_label` is not: at the end of
  the file `read` gives the empty string, which is not a NUL, and the loop reads on.  So a pass comes
  back exactly when the name it reads, if it reads one, has a NUL ahead of its start (`nameStart`), and
  the parser comes back exactly when that is so at every token the loop gets to.

  `pass_returns` and `pass_running` are the two halves for one pass; `terminates_iff` puts them together
  along the states that the loop reaches, which are those of the parser before a name is read.
-/
import DentOS.Fit.Tokens

namespace DentOS.Fit

open Outcome Relation

/-- The parser finishes: for some number of passes it has returned a tree or raised. -/
def Terminates (file : Bytes) : Prop := ∃ fuel, parseStream file fuel ≠ .running

/-! ## The condition: no token that the name loop hangs on is reached -/

/-- The words of the header. -/
def headerWords (file : Bytes) : List Nat := words (file.take 40)

/-- The header is read and not refused. -/
def HeaderPasses (file : Bytes) : Prop :=
  40 ≤ file.length ∧ (headerWords file).getD 0 0 = fdtMagic ∧ 17 ≤ (headerWords file).getD 4 0

/-- Where the name starts that a pass with its tag at `pos` reads: behind the tag of a node, and in
    the strings block for a property whose two words are there. -/
def nameStart (file : Bytes) (stringPos pos : Nat) : Option Nat :=
  let tag := words ((file.drop pos).take 4)
  if tag = [fdtBeginNode] then some (pos + 4)
  else if tag = [fdtProp] then
    match words ((file.drop (pos + 4)).take 8) with
    | [_, nameoff] => some (stringPos + nameoff)
    | _ => none
  else none

/-- The name that a pass with its tag at `pos` reads ends: there is a NUL ahead. -/
def NameEnds (file : Bytes) (stringPos pos : Nat) : Prop :=
  ∀ start, nameStart file stringPos pos = some start → (0x00 : UInt8) ∈ file.drop start

/-- One pass that goes on to another, however many passes its labels take. -/
def Goes (file : Bytes) (stringPos : Nat) (s s' : Tokens) : Prop :=
  ∃ fuel, Hop file fuel stringPos s s'

/-- The token loop of the file gets to `s`. -/
def TokensReached (file : Bytes) (s : Tokens) : Prop :=
  ReflTransGen (Goes file ((headerWords file).getD 3 0))
    (Tokens.start ((headerWords file).getD 2 0)) s

/-! ## One pass gets on, or hangs on a name -/

section

variable {file : Bytes} {fuel stringPos : Nat}

/-- Four bytes are a word. -/
theorem length_words : ∀ bs : Bytes, (words bs).length = bs.length / 4
  | [] => rfl
  | [_] => show 0 = 1 / 4 from rfl
  | [_, _] => show 0 = 2 / 4 from rfl
  | [_, _, _] => show 0 = 3 / 4 from rfl
  | b0 :: b1 :: b2 :: b3 :: rest => by
      rw [words, List.length_cons, length_words rest]
      simp only [List.length_cons]
      omega

/-- `unpack` of exactly or fewer than the bytes it wants. -/
theorem unpack_eq {k : Nat} {buf : Bytes} (hlen : buf.length ≤ 4 * k) :
    unpack k buf = if (words buf).length = k then .returned (words buf) else .raised .structError := by
  rw [unpack, length_words]
  by_cases h : buf.length = 4 * k
  · rw [if_pos h, if_pos (by omega)]
  · rw [if_neg h, if_neg (by omega)]

/-- A pass whose tag is not there raises; otherwise the branch of the tag decides. -/
theorem pass_words (s : Tokens) : pass file fuel stringPos s =
    match words ((file.drop s.pos).take 4) with
    | [tag] => onTag file fuel stringPos tag { s with pos := s.pos + 4 }
    | _ => .raised .structError := by
  have hle : ((file.drop s.pos).take 4).length ≤ 4 * 1 := List.length_take_le _ _
  rw [pass, read]
  show unpack 1 ((file.drop s.pos).take 4) >>= _ = _
  rw [unpack_eq hle]
  have hlen := length_words ((file.drop s.pos).take 4)
  rcases hw : words ((file.drop s.pos).take 4) with _ | ⟨tag, _ | ⟨_, _⟩⟩
  · rfl
  · rw [hw, List.length_singleton] at hlen
    have hbuf : ((file.drop s.pos).take 4).length = 4 := by omega
    rw [hbuf]
    rfl
  · rw [hw] at hlen
    simp only [List.length_cons] at hlen
    omega

/-- `FDT_PROP` asks for two words. -/
theorem prop_words (s : Tokens) : prop file fuel stringPos s =
    match words ((file.drop s.pos).take 8) with
    | [plen, nameoff] => string file fuel stringPos nameoff >>= fun name =>
        match s.nodeStack with
        | top :: rest =>
            if hasKey top.properties name then .raised (.valueError "duplicate property")
            else pure (.again { s with
              pos := align (s.pos + 8 + plen)
              nodeStack := .mk top.name (top.properties ++ [(name, ⟨name, s.pos + 8, plen⟩)])
                top.nodes :: rest })
        | [] => .raised (.valueError "property with no node")
    | _ => .raised .structError := by
  have hle : ((file.drop s.pos).take 8).length ≤ 4 * 2 := List.length_take_le _ _
  rw [prop, read]
  show unpack 2 ((file.drop s.pos).take 8) >>= _ = _
  rw [unpack_eq hle]
  have hlen := length_words ((file.drop s.pos).take 8)
  rcases hw : words ((file.drop s.pos).take 8) with _ | ⟨plen, _ | ⟨nameoff, _ | ⟨_, _⟩⟩⟩
  · rfl
  · rfl
  · rw [hw] at hlen
    simp only [List.length_cons, List.length_nil] at hlen
    have hbuf : ((file.drop s.pos).take 8).length = 8 := by omega
    rw [hbuf]
    rfl
  · rw [hw] at hlen
    simp only [List.length_cons] at hlen
    omega

/-- A label with a NUL ahead comes back. -/
theorem label_returns {pos : Nat} {buf : Bytes} (h : (0x00 : UInt8) ∈ file.drop pos)
    (hfuel : file.length < fuel) : label file fuel pos buf ≠ .running := by
  obtain ⟨name, hname, hat⟩ := exists_name file h
  have hle := hat.length_le
  rw [List.length_append, List.length_drop, List.length_singleton] at hle
  rw [label_at file name fuel pos buf hname hat (by omega)]
  exact fun h => by cases h

/-- **A pass comes back** when the name it reads ends. -/
theorem pass_returns {s : Tokens} (h : NameEnds file stringPos s.pos) (hfuel : file.length < fuel) :
    pass file fuel stringPos s ≠ .running := by
  unfold NameEnds nameStart at h
  rw [pass_words]
  split
  · rename_i tag htag
    rw [htag] at h
    unfold onTag
    split
    · rename_i hbegin
      have hend := h (s.pos + 4) (by rw [hbegin]; rfl)
      intro hrun
      rcases bind_eq_running.mp hrun with hrun | ⟨⟨name, pos⟩, -, hrun⟩
      · exact label_returns hend hfuel hrun
      · dsimp only at hrun
        split at hrun <;> cases hrun
    split
    · rename_i hne hprop
      rw [prop_words]
      split
      · rename_i plen nameoff hw
        have hend := h (stringPos + nameoff) (by
          simp only [hprop, hw]
          rfl)
        intro hrun
        rcases bind_eq_running.mp hrun with hrun | ⟨name, -, hrun⟩
        · rcases bind_eq_running.mp hrun with hrun | ⟨⟨name, pos⟩, -, hrun⟩
          · exact label_returns hend hfuel hrun
          · cases hrun
        · split at hrun
          · split at hrun <;> cases hrun
          · cases hrun
      · exact fun hrun => by cases hrun
    split
    · unfold endNode
      split <;> exact fun hrun => by cases hrun
    split
    · exact fun hrun => by cases hrun
    split
    · split <;> exact fun hrun => by cases hrun
    · exact fun hrun => by cases hrun
  · exact fun hrun => by cases hrun

/-- **A pass never comes back** when the name it reads does not end. -/
theorem pass_running {s : Tokens} {start : Nat}
    (hstart : nameStart file stringPos s.pos = some start) (h : (0x00 : UInt8) ∉ file.drop start) :
    pass file fuel stringPos s = .running := by
  unfold nameStart at hstart
  dsimp only at hstart
  rw [pass_words]
  split at hstart
  · rename_i htag
    injection hstart with hstart
    rw [htag]
    show onTag file fuel stringPos fdtBeginNode _ = _
    rw [onTag, if_pos rfl, beginNode]
    show label file fuel (s.pos + 4) [] >>= _ = _
    rw [hstart, label_running file fuel start [] h]
    rfl
  split at hstart
  · rename_i htag
    rw [htag]
    show onTag file fuel stringPos fdtProp _ = _
    rw [onTag, if_neg (by decide), if_pos rfl, prop_words]
    dsimp only
    split at hstart
    · rename_i plen nameoff hw
      injection hstart with hstart
      show string file fuel stringPos nameoff >>= _ = _
      rw [string, hstart, label_running file fuel start [] h]
      rfl
    · exact absurd hstart (by simp)
  · exact absurd hstart (by simp)

/-! ## The loop ends exactly under the condition -/

/-- From a token whose name does not end, and from every token that leads to it, the loop never
    comes back. -/
theorem tokenLoop_running {s s' : Tokens} (h : ReflTransGen (Goes file stringPos) s s')
    (hbad : ¬ NameEnds file stringPos s'.pos) : ∀ passes,
    tokenLoop file fuel stringPos passes s = .running := by
  induction h using ReflTransGen.head_induction_on with
  | refl =>
      intro passes
      cases passes with
      | zero => rfl
      | succ n =>
          unfold NameEnds at hbad
          obtain ⟨start, hbad⟩ := Classical.not_forall.mp hbad
          obtain ⟨hstart, hnul⟩ := Classical.not_imp.mp hbad
          rw [tokenLoop, pass_running hstart hnul]
          rfl
  | @head a b hgoes _ ih =>
      intro passes
      cases passes with
      | zero => rfl
      | succ n =>
          obtain ⟨fuel', hhop⟩ := hgoes
          rw [tokenLoop]
          -- with fewer passes for its label this pass may be still running, with more it is the same
          rcases Nat.le_total fuel fuel' with hle | hle
          · have happrox : Approx (pass file fuel stringPos a) (pass file fuel' stringPos a) :=
              pass_approx hle a
            rcases happrox with hrun | heq
            · rw [hrun]
              rfl
            · rw [heq, hhop]
              exact ih n
          · rw [hop_mono hle hhop]
            exact ih n

/-- When every name ends that the loop gets to, it comes back within as many passes as there are
    bytes ahead.  Induction on the passes: each one makes way. -/
theorem tokenLoop_returns (hfuel : file.length < fuel) : ∀ (passes : Nat) (s : Tokens),
    (∀ s', ReflTransGen (Goes file stringPos) s s' → NameEnds file stringPos s'.pos) →
    file.length - s.pos < passes → tokenLoop file fuel stringPos passes s ≠ .running := by
  intro passes
  induction passes with
  | zero => intro s _ hlt; omega
  | succ n ih =>
      intro s hnames hlt hrun
      rcases bind_eq_running.mp hrun with hrun | ⟨next, hpass, hrun⟩
      · exact pass_returns (hnames s ReflTransGen.refl) hfuel hrun
      · cases next with
        | stop t => cases hrun
        | again s' =>
            have hhop : Hop file fuel stringPos s s' := hpass
            obtain ⟨hin, hup⟩ := lt_of_hop hhop
            exact ih s' (fun t ht => hnames t (ReflTransGen.head ⟨fuel, hhop⟩ ht)) (by omega) hrun

end

/-! ## So does the parser -/

/-- A header that is not refused leads into the loop, and every other one to an exception. -/
theorem parseStream_running_iff (file : Bytes) (fuel : Nat) :
    parseStream file fuel = .running ↔ HeaderPasses file ∧
      tokenLoop file fuel ((headerWords file).getD 3 0) fuel
        (Tokens.start ((headerWords file).getD 2 0)) = .running := by
  have hle : (file.take 40).length ≤ 4 * 10 := List.length_take_le _ _
  have hlen := length_words (file.take 40)
  have hlen40 : (file.take 40).length = min 40 file.length := List.length_take
  unfold HeaderPasses headerWords parseStream read
  rw [List.drop_zero]
  dsimp only
  rw [unpack_eq hle]
  by_cases hshort : file.length < 40
  · rw [if_neg (by omega)]
    constructor
    · intro h
      cases h
    · rintro ⟨⟨h40, -⟩, -⟩
      omega
  · rw [if_pos (by omega), returned_bind]
    by_cases hmagic : (words (file.take 40)).getD 0 0 = fdtMagic
    · by_cases hversion : (words (file.take 40)).getD 4 0 < 17
      · rw [if_neg (fun hne => hne hmagic), if_pos hversion]
        constructor
        · intro h
          cases h
        · rintro ⟨⟨-, -, h17⟩, -⟩
          omega
      · rw [if_neg (fun hne => hne hmagic), if_neg hversion, bind_eq_running]
        constructor
        · rintro (h | ⟨s, -, h⟩)
          · exact ⟨⟨by omega, hmagic, by omega⟩, h⟩
          · cases h
        · rintro ⟨-, h⟩
          exact Or.inl h
    · rw [if_pos hmagic]
      constructor
      · intro h
        cases h
      · rintro ⟨⟨-, hmagic', -⟩, -⟩
        exact absurd hmagic' hmagic

/-- **The parser comes to an end exactly when** its header is refused or every name ends that its
    token loop gets to. -/
theorem terminates_iff (file : Bytes) : Terminates file ↔
    (HeaderPasses file →
      ∀ s, TokensReached file s → NameEnds file ((headerWords file).getD 3 0) s.pos) := by
  constructor
  · rintro ⟨fuel, hfuel⟩ hheader s hs
    by_cases hends : NameEnds file ((headerWords file).getD 3 0) s.pos
    · exact hends
    · exact absurd ((parseStream_running_iff file fuel).mpr
        ⟨hheader, tokenLoop_running hs hends fuel⟩) hfuel
  · intro h
    refine ⟨file.length + 1, fun hrun => ?_⟩
    obtain ⟨hheader, hloop⟩ := (parseStream_running_iff file _).mp hrun
    exact tokenLoop_returns (Nat.lt_succ_self _) _ _ (h hheader)
      (Nat.lt_succ_of_le (Nat.sub_le _ _)) hloop

/-- A header whose struct block, right behind it, is the tag of a node and nothing else. -/
def unendedFile : Bytes :=
  [fdtMagic, 44, 40, 44, 40, 17, 16, 0, 0, 4].flatMap word ++ word fdtBeginNode

/-- The parser reads on for ever behind the end of the file. -/
theorem unendedFile_runs : ¬ Terminates unendedFile := by
  rintro ⟨fuel, hfuel⟩
  apply hfuel
  rw [parseStream_running_iff]
  refine ⟨⟨by decide +kernel, by decide +kernel, by decide +kernel⟩, ?_⟩
  refine tokenLoop_running ReflTransGen.refl (fun hends => ?_) fuel
  have hnul : (0x00 : UInt8) ∈ unendedFile.drop 44 := hends 44 (by decide +kernel)
  exact absurd hnul (by decide +kernel)

end DentOS.Fit

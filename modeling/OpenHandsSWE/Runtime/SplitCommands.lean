import OpenHandsSWE.Lib.Blanks

/-! A command line is split at the commands that the parser of shell text finds in it. -/

namespace OpenHands

open Text

namespace SplitCommands

/-- From a place on, the spans follow each other up to the end of the text. -/
def Ordered (length : Nat) : Nat → List (Nat × Nat) → Prop
  | last, [] => last ≤ length
  | last, node :: nodes => last ≤ node.1 ∧ node.1 ≤ node.2 ∧ Ordered length node.2 nodes

/-- The positions of the nodes, unless the text cannot be parsed. -/
abbrev Parser := (commands : List Char) → Option { nodes : List (Nat × Nat) // Ordered commands.length 0 nodes }

/-- `commands[start:end]`. -/
def slice (commands : List Char) (start stop : Nat) : List Char := (commands.take stop).drop start

/-- `result[-1] += text`. -/
def addToLast (result : List (List Char)) (text : List Char) : List (List Char) :=
  match result.getLast? with
  | some last => result.dropLast ++ [last ++ text]
  | none => result

/-- The pieces so far and the end of the last node. -/
structure Split where
  result : List (List Char) := []
  lastEnd : Nat := 0

def addBetween (commands : List Char) (st : Split) (start : Nat) : List (List Char) :=
  if start > st.lastEnd then
    let between := slice commands st.lastEnd start
    if st.result ≠ [] then addToLast st.result (rstrip between)
    else if strip between ≠ [] then [rstrip between]
    else []
  else st.result

def addNode (commands : List Char) (st : Split) (node : Nat × Nat) : Split where
  result := addBetween commands st node.1 ++ [rstrip (slice commands node.1 node.2)]
  lastEnd := node.2

def addRemaining (commands : List Char) (st : Split) : List (List Char) :=
  let remaining := rstrip (commands.drop st.lastEnd)
  if st.lastEnd < commands.length ∧ st.result ≠ [] then addToLast st.result remaining
  else if st.lastEnd < commands.length ∧ remaining ≠ [] then [remaining]
  else st.result

def splitBashCommands (parse : Parser) (commands : List Char) : List (List Char) :=
  if strip commands = [] then [[]]
  else
    match parse commands with
    | none => [commands]
    | some nodes => addRemaining commands (nodes.val.foldl (addNode commands) {})

/-! ## The pieces -/

section Pieces

variable {commands : List Char} {nodes : List (Nat × Nat)} {last : Nat}

/-- Where the next node starts, or the text ends. -/
def nextStart (commands : List Char) : List (Nat × Nat) → Nat
  | [] => commands.length
  | node :: _ => node.1

/-- Each node with the text up to the next one. -/
def pieces (commands : List Char) : List (Nat × Nat) → List (List Char)
  | [] => []
  | node :: nodes =>
    (rstrip (slice commands node.1 node.2) ++ rstrip (slice commands node.2 (nextStart commands nodes))) ::
      pieces commands nodes

theorem addToLast_append (front : List (List Char)) (piece text : List Char) :
    addToLast (front ++ [piece]) text = front ++ [piece ++ text] := by
  rw [addToLast, List.getLast?_concat]
  dsimp only
  rw [List.dropLast_concat]

theorem slice_self (commands : List Char) (place : Nat) : slice commands place place = [] :=
  List.drop_eq_nil_of_le (List.length_take_le _ _)

theorem le_nextStart (h : Ordered commands.length last nodes) : last ≤ nextStart commands nodes := by
  cases nodes with
  | nil => exact h
  | cons node nodes => exact h.1

/-- What comes next is added to the piece that is there. -/
theorem addBetween_append (front : List (List Char)) (piece : List Char) {start : Nat} (h : last ≤ start) :
    addBetween commands ⟨front ++ [piece], last⟩ start = front ++ [piece ++ rstrip (slice commands last start)] := by
  have hne : front ++ [piece] ≠ [] := List.append_ne_nil_of_right_ne_nil front (List.cons_ne_nil piece [])
  unfold addBetween
  dsimp only
  by_cases hstart : start > last
  · rw [if_pos hstart, if_pos hne, addToLast_append]
  · obtain rfl : last = start := by omega
    rw [if_neg hstart, slice_self]
    exact congrArg (fun p => front ++ [p]) (List.append_nil piece).symm

theorem addRemaining_append (front : List (List Char)) (piece : List Char) (h : last ≤ commands.length) :
    addRemaining commands ⟨front ++ [piece], last⟩ =
      front ++ [piece ++ rstrip (slice commands last commands.length)] := by
  have hne : front ++ [piece] ≠ [] := List.append_ne_nil_of_right_ne_nil front (List.cons_ne_nil piece [])
  have hslice : slice commands last commands.length = commands.drop last := by rw [slice, List.take_length]
  unfold addRemaining
  dsimp only
  rw [hslice]
  by_cases hlast : last < commands.length
  · rw [if_pos ⟨hlast, hne⟩, addToLast_append]
  · have hnil : commands.drop last = [] := List.drop_eq_nil_of_le (by omega)
    rw [if_neg fun h => hlast h.1, if_neg fun h => hlast h.1, hnil]
    exact congrArg (fun p => front ++ [p]) (List.append_nil piece).symm

/-- After the first piece there is one for each node. -/
theorem foldl_addNode (front : List (List Char)) (piece : List Char) (h : Ordered commands.length last nodes) :
    addRemaining commands (nodes.foldl (addNode commands) ⟨front ++ [piece], last⟩) =
      front ++ (piece ++ rstrip (slice commands last (nextStart commands nodes))) :: pieces commands nodes := by
  induction nodes generalizing front piece last with
  | nil => exact addRemaining_append front piece h
  | cons node nodes ih =>
    obtain ⟨hstart, -, hrest⟩ := h
    rw [List.foldl_cons, addNode, addBetween_append front piece hstart, ih _ _ hrest, List.append_assoc]
    rfl

/-- The text before the first node is a piece unless it is white space. -/
def lead (commands : List Char) (nodes : List (Nat × Nat)) : List (List Char) :=
  if strip (slice commands 0 (nextStart commands nodes)) = [] then []
  else [rstrip (slice commands 0 (nextStart commands nodes))]

theorem split_nodes (hcommands : strip commands ≠ []) (h : Ordered commands.length 0 nodes) :
    addRemaining commands (nodes.foldl (addNode commands) {}) = lead commands nodes ++ pieces commands nodes := by
  cases nodes with
  | nil =>
    have hwhole : slice commands 0 (nextStart commands []) = commands := List.take_length
    have hremaining : rstrip commands ≠ [] := fun hnil => hcommands (strip_eq_nil_iff.mpr (rstrip_eq_nil_iff.mp hnil))
    have hlength : 0 < commands.length := List.length_pos_of_ne_nil fun hnil => hcommands (by rw [hnil]; rfl)
    rw [lead, hwhole, if_neg hcommands]
    exact (if_neg fun hresult => hresult.2 rfl).trans (if_pos ⟨hlength, hremaining⟩)
  | cons node nodes =>
    obtain ⟨-, -, hrest⟩ := h
    have hbetween : addBetween commands {} node.1 = lead commands (node :: nodes) := by
      unfold addBetween lead
      by_cases hstart : node.1 > 0
      · by_cases hblank : strip (slice commands 0 node.1) = []
        · rw [if_pos hstart]
          exact (if_neg (not_not.mpr hblank)).trans (if_pos hblank).symm
        · rw [if_pos hstart]
          exact (if_pos hblank).trans (if_neg hblank).symm
      · have hzero : node.1 = 0 := by omega
        have hnil : strip (slice commands 0 (nextStart commands (node :: nodes))) = [] := by
          rw [nextStart, hzero, slice_self]
          rfl
        rw [if_neg hstart, if_pos hnil]
    rw [List.foldl_cons, addNode, hbetween, foldl_addNode _ _ hrest]
    rfl

end Pieces

/-! ## Nothing is lost -/

section Bare

variable {commands : List Char} {nodes : List (Nat × Nat)} {last : Nat}

theorem slice_append {start middle stop : Nat} (hstart : start ≤ middle) (hstop : middle ≤ stop) (commands : List Char) :
    slice commands start middle ++ slice commands middle stop = slice commands start stop := by
  have htake : commands.take middle = (commands.take stop).take middle := by
    rw [List.take_take, Nat.min_eq_left hstop]
  rw [slice, slice, slice, htake, List.drop_take, ← Nat.add_sub_cancel' hstart, Nat.add_sub_cancel_left, ← List.drop_drop,
    List.take_append_drop]

theorem bare_slices {start middle stop : Nat} (hstart : start ≤ middle) (hstop : middle ≤ stop) (commands : List Char) :
    bare (rstrip (slice commands start middle) ++ rstrip (slice commands middle stop)) = bare (slice commands start stop) := by
  rw [bare_append, bare_rstrip, bare_rstrip, ← bare_append, slice_append hstart hstop]

theorem Ordered.le (h : Ordered commands.length last nodes) : last ≤ commands.length := by
  induction nodes generalizing last with
  | nil => exact h
  | cons node nodes ih => exact h.1.trans (h.2.1.trans (ih h.2.2))

theorem Ordered.nextStart_le (h : Ordered commands.length last nodes) : nextStart commands nodes ≤ commands.length := by
  cases nodes with
  | nil => exact le_rfl
  | cons node nodes => exact h.2.1.trans h.2.2.le

theorem bare_pieces (h : Ordered commands.length last nodes) :
    bare (pieces commands nodes).flatten = bare (slice commands (nextStart commands nodes) commands.length) := by
  induction nodes generalizing last with
  | nil =>
    rw [nextStart, slice_self]
    rfl
  | cons node nodes ih =>
    obtain ⟨-, hnode, hrest⟩ := h
    have hnext := le_nextStart hrest
    have hend := hrest.nextStart_le
    rw [pieces, List.flatten_cons, bare_append, ih hrest, bare_slices hnode hnext, ← bare_append,
      slice_append (hnode.trans hnext) hend]
    rfl

theorem bare_lead (commands : List Char) (nodes : List (Nat × Nat)) :
    bare (lead commands nodes).flatten = bare (slice commands 0 (nextStart commands nodes)) := by
  unfold lead
  split_ifs with hblank
  · exact (strip_eq_nil_iff.mp hblank).symm
  · rw [List.flatten_singleton, bare_rstrip]

/-- The text of the node, and what follows it. -/
def StartsAt (commands piece : List Char) (node : Nat × Nat) : Prop :=
  ∃ stop, node.2 ≤ stop ∧ piece = rstrip (slice commands node.1 node.2) ++ rstrip (slice commands node.2 stop)

theorem startsAt_pieces (h : Ordered commands.length last nodes) :
    List.Forall₂ (StartsAt commands) (pieces commands nodes) nodes := by
  induction nodes generalizing last with
  | nil => exact .nil
  | cons node nodes ih => exact .cons ⟨nextStart commands nodes, le_nextStart h.2.2, rfl⟩ (ih h.2.2)

/-- Only white space is lost, and behind a first piece of what stands before the nodes each piece starts at
its node. -/
structure KeepsText (parse : Parser) (commands : List Char) : Prop where
  text : bare (splitBashCommands parse commands).flatten = bare commands
  starts : strip commands ≠ [] → ∀ nodes, parse commands = some nodes → ∀ node ∈ nodes.val.head?, ∃ before rest,
    splitBashCommands parse commands = before ++ rest ∧
      (before = [] ∨ before = [rstrip (slice commands 0 node.1)]) ∧ List.Forall₂ (StartsAt commands) rest nodes.val

theorem splitBashCommands_keepsText (parse : Parser) (commands : List Char) : KeepsText parse commands := by
  have hsplit (hcommands : strip commands ≠ []) {nodes : { nodes // Ordered commands.length 0 nodes }}
      (hparse : parse commands = some nodes) :
      splitBashCommands parse commands = lead commands nodes.val ++ pieces commands nodes.val := by
    rw [splitBashCommands, if_neg hcommands, hparse]
    exact split_nodes hcommands nodes.property
  constructor
  · by_cases hcommands : strip commands = []
    · rw [splitBashCommands, if_pos hcommands, strip_eq_nil_iff.mp hcommands]
      rfl
    · cases hparse : parse commands with
      | none =>
        rw [splitBashCommands, if_neg hcommands, hparse]
        exact congrArg bare List.flatten_singleton
      | some nodes =>
        have hwhole : slice commands 0 commands.length = commands := List.take_length
        rw [hsplit hcommands hparse, List.flatten_append, bare_append, bare_lead, bare_pieces nodes.property, ← bare_append,
          slice_append (Nat.zero_le _) nodes.property.nextStart_le, hwhole]
  · intro hcommands nodes hparse node hnode
    refine ⟨_, _, hsplit hcommands hparse, ?_, startsAt_pieces nodes.property⟩
    have hnext : nextStart commands nodes.val = node.1 := by
      obtain ⟨rest, hrest⟩ := List.head?_eq_some_iff.mp hnode
      rw [hrest]
      rfl
    rw [lead, hnext]
    split_ifs
    · exact .inl rfl
    · exact .inr rfl

end Bare

end SplitCommands

end OpenHands

import Mathlib.Data.List.TakeWhile
import Mathlib.Tactic.Common
import Zcp.Gateway.POP3

/-!
# Messages in a POP3 response

A message ends with a line that is a dot, so `DotFilter` doubles dots at the beginning of lines, and the client takes
them away. For `DotFilter` a line ends with a line feed, for the client with a carriage return and a line feed.
`messages_received_iff` says which messages come through.
-/

namespace Zcp.Gateway.POP3

/-- The lines as `ECChannel::HrWriteLine` writes them. -/
def written (lines : List (List UInt8)) : List UInt8 := lines.flatMap (· ++ [13, 10])

/-- A line without the dot that was put in front of it. -/
def unstuffed (line : List UInt8) : List UInt8 := if line.head? = some 46 then line.tail else line

/-- A client behind the first line of a response. It has read `line` of the next line, and gives the message and what
is behind it. -/
def receive (line : List UInt8) : List UInt8 → Option (List UInt8 × List UInt8)
  | [] => none
  | c :: input =>
    if c = 10 ∧ line.getLast? = some 13 then
      if line.dropLast = [46] then some ([], input)
      else do
        let (message, behind) ← receive [] input
        some (unstuffed line.dropLast ++ [13, 10] ++ message, behind)
    else receive (line ++ [c]) input

/-- What a client makes of a message behind the bytes `p` and `q`: a dot behind a line feed that ends no line stays
doubled. -/
def doubled (p q : UInt8) : List UInt8 → List UInt8
  | [] => []
  | c :: message => (if c = 46 ∧ q = 10 ∧ p ≠ 13 then [46, c] else [c]) ++ doubled q c message

/-- Behind the end of the response's first line, each line feed in front of a dot ends a line. -/
def DotsBeginLines (message : List UInt8) : Prop :=
  ∀ front c rest, 13 :: 10 :: message = front ++ c :: 10 :: 46 :: rest → c = 13

variable {p q c : UInt8} {line message behind : List UInt8}

/-! ## The client -/

theorem receive_concat (hc : c ≠ 10 ∨ line.getLast? ≠ some 13) (input : List UInt8) :
    receive line (c :: input) = receive (line ++ [c]) input := by
  rw [receive, if_neg]
  rintro ⟨hfeed, hreturn⟩
  exact hc.elim (fun h => h hfeed) (fun h => h hreturn)

theorem receive_dot (behind : List UInt8) : receive [] (46 :: 13 :: 10 :: behind) = some ([], behind) := by
  rw [receive_concat (.inl (by decide)), receive_concat (.inl (by decide)), receive]
  rfl

theorem receive_line (hline : line ≠ [46]) (input : List UInt8) : receive (line ++ [13]) (10 :: input) =
      (receive [] input).map fun r => (unstuffed line ++ [13, 10] ++ r.1, r.2) := by
  rw [receive, if_pos ⟨rfl, List.getLast?_concat⟩, List.dropLast_concat, if_neg hline]
  cases receive [] input <;> rfl

/-- A dot that a line begins with is doubled. -/
def Stuffed (line : List UInt8) : Prop := line.head? = some 46 → ∃ rest, line = 46 :: 46 :: rest

theorem Stuffed.ne_dot (h : Stuffed line) : line ≠ [46] := by
  rintro rfl
  obtain ⟨rest, hrest⟩ := h rfl
  cases hrest

theorem Stuffed.concat (h : Stuffed line) (hc : line = [] → c ≠ 46) : Stuffed (line ++ [c]) := by
  intro hhead
  cases line with
  | nil => exact absurd (Option.some.inj hhead) (hc rfl)
  | cons d line =>
    obtain ⟨rest, hrest⟩ := h hhead
    exact ⟨rest ++ [c], by rw [hrest]; rfl⟩

theorem unstuffed_concat (hc : line = [] → c ≠ 46) : unstuffed (line ++ [c]) = unstuffed line ++ [c] := by
  cases line with
  | nil => simp [unstuffed, hc rfl]
  | cons d line =>
    by_cases hd : d = 46
    · simp [unstuffed, hd]
    · simp [unstuffed, hd]

/-! ## The way of a message -/

theorem dotFilterLoop_dot : dotFilterLoop 10 (46 :: message) = 46 :: 46 :: dotFilterLoop 46 message := rfl

theorem dotFilterLoop_of_not (h : ¬ (c = 46 ∧ q = 10)) :
    dotFilterLoop q (c :: message) = c :: dotFilterLoop c message := by
  rw [dotFilterLoop, if_neg h, List.singleton_append]

theorem doubled_dot (hp : p ≠ 13) : doubled p 10 (46 :: message) = 46 :: 46 :: doubled 10 46 message := by
  rw [doubled, if_pos ⟨rfl, rfl, hp⟩]
  rfl

theorem doubled_of_not (h : ¬ (c = 46 ∧ q = 10 ∧ p ≠ 13)) :
    doubled p q (c :: message) = c :: doubled q c message := by
  rw [doubled, if_neg h, List.singleton_append]

/-- How far the client is behind the bytes `p` and `q` of a message: at the beginning of a line, or in a line whose
last byte is `q`. -/
def Reading (p q : UInt8) (line : List UInt8) : Prop :=
  (line = [] ∧ p = 13 ∧ q = 10) ∨ (line.getLast? = some q ∧ (q = 10 → p ≠ 13))

theorem reading_concat (hc : c ≠ 10 ∨ q ≠ 13) : Reading q c (line ++ [c]) :=
  .inr ⟨List.getLast?_concat, fun hfeed => hc.resolve_left (not_not_intro hfeed)⟩

/-- The end of a message: the client reads it as the end of the last line and the line with the dot. -/
theorem receive_end (hstuffed : Stuffed line) :
    receive line (13 :: 10 :: 46 :: 13 :: 10 :: behind) = some (unstuffed line ++ [13, 10], behind) := by
  rw [receive_concat (.inl (by decide)), receive_line hstuffed.ne_dot, receive_dot]
  simp

theorem Reading.empty (h : Reading p q line) (hline : line = []) : p = 13 ∧ q = 10 := by
  obtain ⟨-, hp, hq⟩ | ⟨hlast, -⟩ := h
  · exact ⟨hp, hq⟩
  · rw [hline] at hlast
    cases hlast

theorem receive_dotFilterLoop (hreading : Reading p q line) (hstuffed : Stuffed line) :
    receive line (dotFilterLoop q message ++ 13 :: 10 :: 46 :: 13 :: 10 :: behind) =
      some (unstuffed line ++ doubled p q message ++ [13, 10], behind) := by
  induction message generalizing p q line with
  | nil => simpa [dotFilterLoop, doubled] using receive_end hstuffed
  | cons c message ih =>
    by_cases hend : c = 10 ∧ q = 13
    · -- the end of a line of the message
      obtain ⟨rfl, rfl⟩ := hend
      have hlast : line.getLast? = some 13 := by
        obtain ⟨-, -, hq⟩ | ⟨hlast, -⟩ := hreading
        · exact absurd hq (by decide)
        · exact hlast
      obtain ⟨front, rfl⟩ := List.getLast?_eq_some_iff.mp hlast
      have hfront : front ≠ [46] := by
        rintro rfl
        obtain ⟨rest, hrest⟩ := hstuffed rfl
        cases hrest
      have hrest : receive [] (dotFilterLoop 10 message ++ 13 :: 10 :: 46 :: 13 :: 10 :: behind) =
          some (unstuffed [] ++ doubled 13 10 message ++ [13, 10], behind) :=
        ih (.inl ⟨rfl, rfl, rfl⟩) (by simp [Stuffed])
      rw [dotFilterLoop_of_not (by decide), doubled_of_not (by simp), List.cons_append, receive_line hfront,
        hrest, unstuffed_concat (by simp)]
      simp [unstuffed]
    · by_cases hdot : c = 46 ∧ q = 10
      · obtain ⟨rfl, rfl⟩ := hdot
        rw [dotFilterLoop_dot, List.cons_append, List.cons_append, receive_concat (.inl (by decide)),
          receive_concat (.inl (by decide))]
        have hdots : Reading 10 46 (line ++ [46] ++ [46]) := .inr ⟨List.getLast?_concat, by decide⟩
        by_cases hline : line = []
        · -- the client takes the second dot away
          obtain ⟨rfl, -⟩ := hreading.empty hline
          subst hline
          rw [ih hdots fun _ => ⟨[], rfl⟩, doubled_of_not (by simp)]
          rfl
        · have hp : p ≠ 13 := by
            obtain ⟨hempty, -, -⟩ | ⟨-, hp⟩ := hreading
            · exact absurd hempty hline
            · exact hp rfl
          have hfirst : Stuffed (line ++ [46]) := hstuffed.concat fun h => absurd h hline
          rw [ih hdots (hfirst.concat (by simp)), unstuffed_concat (by simp),
            unstuffed_concat fun h => absurd h hline, doubled_dot hp]
          simp
      · have hbyte : c ≠ 10 ∨ q ≠ 13 := not_and_or.mp hend
        have hlast : c ≠ 10 ∨ line.getLast? ≠ some 13 := by
          refine hbyte.imp_right fun hq => ?_
          obtain ⟨hempty, -, -⟩ | ⟨hlast, -⟩ := hreading
          · simp [hempty]
          · rw [hlast]
            exact fun h => hq (Option.some.inj h)
        have hfirst : line = [] → c ≠ 46 := fun hline hc => hdot ⟨hc, (hreading.empty hline).2⟩
        rw [dotFilterLoop_of_not hdot, doubled_of_not (fun h => hdot ⟨h.1, h.2.1⟩), List.cons_append,
          receive_concat hlast, ih (reading_concat hbyte) (hstuffed.concat hfirst), unstuffed_concat hfirst]
        simp

/-! ## Messages that come through -/

theorem length_le_doubled : message.length ≤ (doubled p q message).length := by
  induction message generalizing p q with
  | nil => exact Nat.le_refl _
  | cons c message ih =>
    have hrest : message.length ≤ (doubled q c message).length := ih
    rw [doubled]
    split_ifs <;> simp <;> omega

theorem zero_mem_doubled (h : 0 ∈ doubled p q message) : 0 ∈ message := by
  induction message generalizing p q with
  | nil => exact h
  | cons c message ih =>
    rw [doubled, List.mem_append] at h
    obtain hc | hrest := h
    · split_ifs at hc with hdot
      · rw [hdot.1] at hc
        simp at hc
      · rw [List.mem_singleton.mp hc]
        exact List.mem_cons_self
    · exact List.mem_cons_of_mem _ (ih hrest)

theorem doubled_eq_iff : doubled p q message = message ↔
    ∀ front c rest, p :: q :: message = front ++ c :: 10 :: 46 :: rest → c = 13 := by
  induction message generalizing p q with
  | nil =>
    refine iff_of_true rfl fun front c rest h => ?_
    have hlength := congrArg List.length h
    simp at hlength
    omega
  | cons d message ih =>
    rw [doubled]
    split_ifs with hdot
    · obtain ⟨rfl, rfl, hp⟩ := hdot
      refine iff_of_false (fun h => ?_) fun h => hp (h [] p message rfl)
      have hlength := congrArg List.length h
      have hle : message.length ≤ (doubled 10 46 message).length := length_le_doubled
      simp at hlength
      omega
    · rw [List.singleton_append, List.cons_inj_right, ih]
      refine ⟨fun h front c rest hsplit => ?_, fun h front c rest hsplit => ?_⟩
      · cases front with
        | nil =>
          obtain ⟨rfl, rfl, rfl, -⟩ : p = c ∧ q = 10 ∧ d = 46 ∧ message = rest := by simpa using hsplit
          exact not_not.mp fun hp => hdot ⟨rfl, rfl, hp⟩
        | cons e front => exact h front c rest (List.cons.inj hsplit).2
      · exact h (p :: front) c rest (by rw [List.cons_append, hsplit])

/-- `DotFilter` filters what is in front of the first zero, behind the line feed of the response. -/
theorem dotFilter_eq : DotFilter message =
    if (message.takeWhile (· ≠ 0)).head? = some 46 then none
    else some (dotFilterLoop 10 (message.takeWhile (· ≠ 0))) := by
  rw [DotFilter]
  cases message.takeWhile (· ≠ 0) with
  | nil => rfl
  | cons c input =>
    by_cases hc : c = 46
    · simp [hc]
    · simp [hc, dotFilterLoop]

/-- Nothing of the message is lost, and nothing is left over for the client to take for the next response. -/
theorem received_iff : (∃ strMessage, DotFilter message = some strMessage ∧
        receive [] (written [strMessage, [46]] ++ behind) = some (message ++ [13, 10], behind)) ↔
      0 ∉ message ∧ message.head? ≠ some 46 ∧ DotsBeginLines message := by
  have hreceived (text : List UInt8) : receive [] (written [dotFilterLoop 10 text, [46]] ++ behind) =
      some (doubled 13 10 text ++ [13, 10], behind) := by
    have hloop : receive [] (dotFilterLoop 10 text ++ 13 :: 10 :: 46 :: 13 :: 10 :: behind) =
        some (unstuffed [] ++ doubled 13 10 text ++ [13, 10], behind) :=
      receive_dotFilterLoop (.inl ⟨rfl, rfl, rfl⟩) (by simp [Stuffed])
    simpa [written, unstuffed] using hloop
  have hnoZero : 0 ∉ message.takeWhile (· ≠ 0) := fun h => by simpa using List.mem_takeWhile_imp h
  have hwhole (hzero : 0 ∉ message) : message.takeWhile (· ≠ 0) = message := by
    refine List.takeWhile_eq_self_iff.mpr fun c hc => decide_eq_true fun h => hzero ?_
    rwa [← h]
  rw [dotFilter_eq]
  refine ⟨fun hthrough => ?_, fun hthrough => ?_⟩
  · obtain ⟨strMessage, hfilter, hmessage⟩ := hthrough
    split_ifs at hfilter with hdot
    rw [← Option.some.inj hfilter, hreceived] at hmessage
    have hdoubled : doubled 13 10 (message.takeWhile (· ≠ 0)) = message :=
      List.append_cancel_right (Prod.mk.inj (Option.some.inj hmessage)).1
    have hzero : 0 ∉ message := fun h => hnoZero (zero_mem_doubled (hdoubled.symm ▸ h))
    rw [hwhole hzero] at hdot hdoubled
    exact ⟨hzero, hdot, doubled_eq_iff.mp hdoubled⟩
  · obtain ⟨hzero, hhead, hdots⟩ := hthrough
    rw [hwhole hzero, if_neg hhead]
    refine ⟨_, rfl, ?_⟩
    rw [hreceived, doubled_eq_iff.mpr hdots]

theorem received_lines_iff (response : List UInt8 → List UInt8) :
    (∃ lines, (do
        let strMessage ← DotFilter message
        some (messageLines (response strMessage) strMessage)) = some lines ∧
        receive [] (written lines.tail ++ behind) = some (message ++ [13, 10], behind)) ↔
      0 ∉ message ∧ message.head? ≠ some 46 ∧ DotsBeginLines message := by
  refine ⟨fun hthrough => ?_, fun hthrough => ?_⟩
  · obtain ⟨lines, hlines, hreceived⟩ := hthrough
    obtain ⟨strMessage, hfilter, hsome⟩ := Option.bind_eq_some_iff.mp hlines
    rw [← Option.some.inj hsome] at hreceived
    exact received_iff.mp ⟨strMessage, hfilter, hreceived⟩
  · obtain ⟨strMessage, hfilter, hreceived⟩ := received_iff.mpr hthrough
    exact ⟨_, Option.bind_eq_some_iff.mpr ⟨strMessage, hfilter, rfl⟩, hreceived⟩

variable {lstMails : List MailListItem} {ulMailNr : UInt32} {mail : MailListItem}

theorem withMail_of (hnr : 1 ≤ ulMailNr.toNat) (hmail : lstMails[ulMailNr.toNat - 1]? = some mail)
    (notFound : String) (f : MailListItem → Option (List (List UInt8))) :
    withMail lstMails ulMailNr notFound f = f mail := by
  obtain ⟨hlt, hget⟩ := List.getElem?_eq_some_iff.mp hmail
  rw [withMail, dif_pos ⟨hnr, by omega⟩, List.get_eq_getElem, hget]

/-- **Which messages come through.** A client that reads the response to `RETR` behind its first line has the message
with the end of its last line, and whatever comes behind the response, just when there is no zero in the message, it
does not begin with a dot, and each line feed in front of a dot ends a line. The response to `TOP` is as good for the
part of the message that it sends. -/
theorem messages_received_iff {text : EntryID → Option (List UInt8)} (hnr : 1 ≤ ulMailNr.toNat)
    (hmail : lstMails[ulMailNr.toNat - 1]? = some mail) (htext : text mail.sbEntryID = some message)
    (behind : List UInt8) : ((∃ lines, HrCmdRetr text lstMails ulMailNr = some lines ∧
        receive [] (written lines.tail ++ behind) = some (message ++ [13, 10], behind)) ↔
      0 ∉ message ∧ message.head? ≠ some 46 ∧ DotsBeginLines message) ∧
    ∀ ulLines, (∃ lines, HrCmdTop text lstMails ulMailNr ulLines = some lines ∧
        receive [] (written lines.tail ++ behind) = some (topText message ulLines ++ [13, 10], behind)) ↔
      0 ∉ topText message ulLines ∧ (topText message ulLines).head? ≠ some 46 ∧
        DotsBeginLines (topText message ulLines) := by
  refine ⟨?_, fun ulLines => ?_⟩
  · simp only [HrCmdRetr, withMail_of hnr hmail, htext]
    exact received_lines_iff fun strMessage =>
      HrResponse POP3_RESP_OK (toString (UInt32.ofNat strMessage.length) ++ " octets")
  · simp only [HrCmdTop, withMail_of hnr hmail, htext]
    exact received_lines_iff fun _ => HrResponse POP3_RESP_OK ""

/-- A message with a line that begins with a dot. -/
theorem messages_received_dotLine :
    ∃ lines, HrCmdRetr (fun _ => some [65, 13, 10, 46, 66]) [⟨[1], 5, false⟩] 1 = some lines ∧
      receive [] (written lines.tail ++ [43]) = some ([65, 13, 10, 46, 66] ++ [13, 10], [43]) :=
  (@messages_received_iff [65, 13, 10, 46, 66] [⟨[1], 5, false⟩] 1 ⟨[1], 5, false⟩ _ (by decide) rfl rfl [43]).1.mpr
    ⟨by decide, by decide, doubled_eq_iff.mp (by decide)⟩

end Zcp.Gateway.POP3

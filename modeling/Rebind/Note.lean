import Rebind.Fault

/-!
# Notes

An injection reports what it finds and does as a list of notes.  `Note.message` is the line a note
is reported by.  `Traced α` is a value together with the notes taken on the way to it; its value
never depends on the notes, which is what `Traced.value_bind` says.
-/

namespace Rebind

inductive Note where
  /-- an import was dropped because it starts with the package of the annotations -/
  | droppedImport (line : Text)
  /-- an import was dropped because it names the library or one of its annotations -/
  | droppedRelatedImport (line : Text)
  | holderClass
  | contentView
  | newBase
  | updating (method : Text)
  | creating (method : Text)
  | addingCalls
  | cleaning
  | noOnCreate
  | markedLookup (line : Text)
  | markedListener (line : Text)
  | markedBrace (line : Text)
  | keptBrace (line : Text)
  | removedLines (count : Nat)
  | nothingToClean
  | replacing (method : Text)
  | alreadyMigrated (method : Text)
  | alreadyLooksUp (method : Text)
  | classEndAt (position : Option Nat)
  | noClassEnd
  | lastBraceAt (position : Nat)
  | cannotCreate
  | created (code : Text)
  /-- the class header that was found, with its extent -/
  | classHeader (found : Option (Nat × Nat × Text))
  | noClass
  | classOpensAt (position : Nat)
  | classMayEndAt (position : Nat) (rest : Text)
  | classFollows
  | classEndsAt (position : Nat)
  | startCalls
  | onCreateAt (start stop : Nat)
  | callsPresent
  | callsAfterContentView (position : Nat)
  | callsAtEnd
  | tryOnCreate
  | injectedLength (length : Nat)
  | onCreateHeader (code : Text)
  | afterContentView (position : Nat)
  | injectingAfterContentView
  | resultLength (length : Nat)
  | alreadyInjected
  | atOnCreateEnd (position : Nat)
  | injectingAtOnCreateEnd
  deriving DecidableEq

def positionText : Option Nat → Text
  | some n => natText n
  | none => "-1"

namespace Note

/-- a header match as it is reported: its extent and at most fifty characters of its quoted text -/
def headerText : Option (Nat × Nat × Text) → Text
  | none => "None"
  | some (start, stop, code) =>
    "<re.Match object; span=(" ++ natText start ++ ", ".toList ++ natText stop
      ++ "), match=".toList ++ (quoted code).take 50 ++ ">".toList

def body : Note → Text
  | .droppedImport line => "移除ButterKnife import语句: " ++ line
  | .droppedRelatedImport line => "移除ButterKnife相关import语句: " ++ line
  | .holderClass => "检测到Holder类，使用Holder特殊处理"
  | .contentView => "检测到有setContentView，使用通用迁移处理"
  | .newBase => "检测到继承自NewBaseActivity或NewBaseFragment，使用定制化处理"
  | .updating method => method ++ "方法已存在，更新其内容".toList
  | .creating method => "创建新的" ++ method ++ "方法".toList
  | .addingCalls => "在onCreate中注入initViews和initListener方法调用"
  | .cleaning => "开始清理onCreate方法中重复的UI初始化代码"
  | .noOnCreate => "没有找到onCreate方法"
  | .markedLookup line => "标记删除重复的findViewById行: " ++ line
  | .markedListener line => "标记删除OnClickListener行: " ++ line
  | .markedBrace line => "标记删除多余的结束括号: " ++ line
  | .keptBrace line => "保留OnClickListener的闭括号: " ++ line
  | .removedLines n => "删除了 " ++ natText n ++ " 行重复的UI初始化代码".toList
  | .nothingToClean => "没有找到需要清理的重复UI初始化代码"
  | .replacing method => "完全替换" ++ method ++ "方法内容".toList
  | .alreadyMigrated method => method ++ "方法中已存在ButterKnife迁移代码，跳过追加".toList
  | .alreadyLooksUp method => method ++ "方法中已存在相同的findViewById调用，跳过重复添加".toList
  | .classEndAt p => "查找类结束位置: " ++ positionText p
  | .noClassEnd => "未找到类结束位置，尝试使用备用方法"
  | .lastBraceAt p => "使用备用方法找到类结束位置: " ++ natText p
  | .cannotCreate => "无法找到类结束位置，无法创建方法"
  | .created code => "创建方法: " ++ code
  | .classHeader found => "主类匹配结果: " ++ headerText found
  | .noClass => "未找到主类定义"
  | .classOpensAt p => "主类开始位置: " ++ natText p
  | .classMayEndAt p rest => "找到可能的类结束位置: " ++ natText p ++ ", 剩余代码: ".toList ++ rest
  | .classFollows => "发现内部类，继续寻找主类结束"
  | .classEndsAt p => "找到主类结束位置: " ++ natText p
  | .startCalls => "开始注入initViews和initListener调用"
  | .onCreateAt start stop =>
    "找到onCreate方法，位置: " ++ natText start ++ "-".toList ++ natText stop
  | .callsPresent => "onCreate方法中initViews和initListener调用已存在，跳过注入"
  | .callsAfterContentView p => "在setContentView之后注入方法调用，位置: " ++ natText p
  | .callsAtEnd => "没有找到setContentView，在onCreate方法末尾注入"
  | .tryOnCreate => "尝试在onCreate方法中注入代码"
  | .injectedLength n => "注入代码长度: " ++ natText n
  | .onCreateHeader code => "onCreate方法内容: " ++ quoted code
  | .afterContentView p => "在setContentView之后注入代码，位置: " ++ natText p
  | .injectingAfterContentView => "注入代码到setContentView之后"
  | .resultLength n => "注入后的代码长度: " ++ natText n
  | .alreadyInjected => "代码已经存在，跳过注入"
  | .atOnCreateEnd p => "没有找到setContentView，在onCreate方法末尾注入，位置: " ++ natText p
  | .injectingAtOnCreateEnd => "注入代码到onCreate方法末尾"

def message (n : Note) : Text := "DEBUG: " ++ n.body

end Note

/-- a value and the notes taken on the way to it -/
structure Traced (α : Type) where
  value : α
  notes : List Note

namespace Traced

instance : Monad Traced where
  pure a := ⟨a, []⟩
  bind x f := ⟨(f x.value).value, x.notes ++ (f x.value).notes⟩

theorem value_pure {α : Type} (a : α) : (pure a : Traced α).value = a := rfl

theorem value_bind {α β : Type} (x : Traced α) (f : α → Traced β) :
    (x >>= f).value = (f x.value).value := rfl

def note (n : Note) : Traced Unit := ⟨(), [n]⟩

theorem value_note_bind {β : Type} (n : Note) (f : Unit → Traced β) :
    (note n >>= f).value = (f ()).value := rfl

end Traced

abbrev Step := ExceptT Fault Traced

end Rebind

import LessSheet.Stylesheet

/-! # What can go wrong

Three kinds of error end a compilation: the text cannot be read (`ParseError`), an expression has
no value (`EvalError`), or calls nest too deeply. A `Problem` does not: it says why a mixin call
found nothing to expand, and compilation goes on. Each cause is a constructor, and its wording is
given by one `message` function per type.
-/

namespace LessSheet

/-- Why a text cannot be read. -/
inductive ParseError.Cause where
  | unclosedBlock
  | nestedImport
  | unknownStatement
  | missingSelector
  | unclosedParams
  | missingParamSeparator
  | missingParamName
  | unclosedArguments
  | missingArgumentSeparator
  | detachedArguments
  | missingValue
  | missingVariableName
  | unknownValue
  | badNumber (text : String)
  | unclosedFunction (name : String)
  | expected (wanted : Char) (found : Option Char)
  | unclosedParens
  | unclosedString
deriving DecidableEq, Repr, Inhabited

/-- The wording of a cause. -/
def ParseError.Cause.message : ParseError.Cause → String
  | .unclosedBlock => "缺少匹配的 '\x7d'"
  | .nestedImport => "@import 只能出现在样式表顶层"
  | .unknownStatement => "无法判断声明或子选择器"
  | .missingSelector => "缺少合法的选择器"
  | .unclosedParams => "mixin 参数列表未闭合"
  | .missingParamSeparator => "mixin 参数列表缺少分隔符"
  | .missingParamName => "mixin 参数名不能为空"
  | .unclosedArguments => "mixin 调用参数未闭合"
  | .missingArgumentSeparator => "mixin 参数调用缺少分隔符"
  | .detachedArguments => "分离规则集调用不接受参数"
  | .missingValue => "缺少值"
  | .missingVariableName => "变量名不能为空"
  | .unknownValue => "无法识别的值"
  | .badNumber text => "无法解析数值 " ++ text
  | .unclosedFunction name => "函数 " ++ name ++ " 缺少 ')'"
  | .expected wanted none => "期待字符 '" ++ toString wanted ++ "'"
  | .expected wanted (some found) =>
    "期待字符 '" ++ toString wanted ++ "', 却得到 '" ++ toString found ++ "'"
  | .unclosedParens => "括号未闭合"
  | .unclosedString => "字符串未闭合"

/-- A text that cannot be read, and the byte offset at which that was noticed. -/
structure ParseError where
  cause : ParseError.Cause
  position : Nat
deriving DecidableEq, Repr, Inhabited

/-- Why an expression has no value, or a statement no meaning. -/
inductive EvalError where
  | undefinedVariable (name : String)
  | notNumeric (lhs : String) (op : Operator) (rhs : String)
  | notNegatable (value : String)
  | divisionByZero
  | defaultOutsideGuard
  | notCallable (name : String)
  | rulesetAsValue (property : String)
  | strayDeclaration (property : String)
deriving DecidableEq, Repr, Inhabited

/-- The wording of an evaluation error. -/
def EvalError.message : EvalError → String
  | .undefinedVariable name => "未定义的变量 @" ++ name
  | .notNumeric lhs op rhs => "无法对非数值进行运算: " ++ lhs ++ " " ++ op.symbol ++ " " ++ rhs
  | .notNegatable value => "无法对 " ++ value ++ " 取负"
  | .divisionByZero => "除法分母不能为 0"
  | .defaultOutsideGuard => "default() 只能在 mixin 守卫中使用"
  | .notCallable name => "变量 @" ++ name ++ " 不是可调用的分离规则集"
  | .rulesetAsValue property => "分离规则集不能作为属性 " ++ property ++ " 的值"
  | .strayDeclaration property => "顶层声明 " ++ property ++ " 无法附加到任何选择器"

/-- An error that ends a compilation. -/
inductive Error where
  | parse (error : ParseError)
  | eval (error : EvalError)
  | tooDeep (name : String) (limit : Nat)
deriving DecidableEq, Repr, Inhabited

/-- The full text of an error. -/
def Error.message : Error → String
  | .parse e => "解析失败: " ++ e.cause.message ++ " (位置 " ++ toString e.position ++ ")"
  | .eval e => "语义求值失败: " ++ e.message
  | .tooDeep name limit => "mixin " ++ name ++ " 递归过深: 超过上限 " ++ toString limit ++ " 层"

/-- Why a mixin call, or one of its candidates, was passed over. -/
inductive Problem where
  | noMatch (call : String) (arguments : Nat)
  | arityMismatch (call : String) (expected actual : Nat)
  | unknownArgument (call name : String)
  | guardFailed (mixin reason : String)
deriving DecidableEq, Repr, Inhabited

/-- The full text of a problem. -/
def Problem.message : Problem → String
  | .noMatch call arguments =>
    "未找到匹配的 mixin 定义 " ++ call ++ " (实参 " ++ toString arguments ++ " 个)"
  | .arityMismatch call expected actual =>
    "mixin " ++ call ++ " 参数个数不匹配: 期望 " ++ toString expected ++ " 个，实际 " ++
      toString actual ++ " 个"
  | .unknownArgument call name => "mixin " ++ call ++ " 没有名为 @" ++ name ++ " 的参数"
  | .guardFailed mixin reason => "mixin " ++ mixin ++ " 的守卫求值失败: " ++ reason

end LessSheet

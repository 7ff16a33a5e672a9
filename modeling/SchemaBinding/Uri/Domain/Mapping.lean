import SchemaBinding.Uri.Domain.Permitted

/-! What the characters of a domain name are written as: capital letters as small ones, variants of a character as the
character itself, and some not at all, as in the mapping table of internationalized domain names of Unicode 17. A
character beyond ASCII that is in no table is written as itself. -/
namespace SchemaBinding
namespace Uri
namespace Domain
namespace Mapping

/-- Characters that are left out. -/
def ignored : List (Nat × Nat) := [
  (0xAD,0xAD),(0x34F,0x34F),(0x115F,0x1160),(0x17B4,0x17B5),(0x180B,0x180F),(0x200B,0x200B),(0x2060,0x2064),
  (0x206A,0x206F),(0x3164,0x3164),(0xFE00,0xFE0F),(0xFEFF,0xFEFF),(0xFFA0,0xFFA0),(0x1BCA0,0x1BCA3),
  (0x1D173,0x1D17A),(0xE0100,0xE01EF)]

/-- Capital letters at every second place, each before the small letter it is written as. -/
def capitals : List (Nat × Nat) := [
  (0x100,0x12E),(0x134,0x136),(0x139,0x13D),(0x141,0x147),(0x14A,0x176),(0x179,0x17D),(0x182,0x184),(0x1A0,0x1A4),
  (0x1B3,0x1B5),(0x1CD,0x1DB),(0x1DE,0x1EE),(0x1F8,0x21E),(0x222,0x232),(0x246,0x24E),(0x370,0x372),(0x3D8,0x3EE),
  (0x460,0x480),(0x48A,0x4BE),(0x4C1,0x4CD),(0x4D0,0x52E),(0x1E00,0x1E94),(0x1EA0,0x1EFE),(0x2C67,0x2C6B),
  (0x2C80,0x2CE2),(0x2CEB,0x2CED),(0xA640,0xA66C),(0xA680,0xA69A),(0xA722,0xA72E),(0xA732,0xA76E),(0xA779,0xA77B),
  (0xA77E,0xA786),(0xA790,0xA792),(0xA796,0xA7A8),(0xA7B4,0xA7C2),(0xA7C7,0xA7C9),(0xA7CC,0xA7DA)]

/-- From one code point to another, each character is written as the one at its place from a third on. -/
def shifted : List (Nat × Nat × Nat) := [
  (0xC0,0xD6,0xE0),(0xD8,0xDE,0xF8),(0x391,0x3A1,0x3B1),(0x3A3,0x3AB,0x3C3),(0x400,0x40F,0x450),(0x410,0x42F,0x430),
  (0x531,0x556,0x561),(0x10A0,0x10C5,0x2D00),(0x13F8,0x13FD,0x13F0),(0x1C90,0x1CBA,0x10D0),(0x1D33,0x1D3A,0x67),
  (0x1F08,0x1F0F,0x1F00),(0x1F18,0x1F1D,0x1F10),(0x1F28,0x1F2F,0x1F20),(0x1F38,0x1F3F,0x1F30),
  (0x1F48,0x1F4D,0x1F40),(0x1F68,0x1F6F,0x1F60),(0x2074,0x2079,0x34),(0x2080,0x2089,0x30),(0x2460,0x2468,0x31),
  (0x24B6,0x24CF,0x61),(0x24D0,0x24E9,0x61),(0x2C00,0x2C2F,0x2C30),(0x313A,0x313F,0x11B0),(0x3145,0x314E,0x1109),
  (0x314F,0x3163,0x1161),(0x3178,0x317C,0x112B),(0x3269,0x326D,0x110E),(0x32E4,0x32E9,0x30CA),
  (0x32EE,0x32F2,0x30DE),(0x32F5,0x32FA,0x30E8),(0xAB70,0xABBF,0x13A0),(0xFF01,0xFF20,0x21),(0xFF21,0xFF3A,0x61),
  (0xFF3B,0xFF5E,0x5B),(0xFF85,0xFF8A,0x30CA),(0xFF8F,0xFF93,0x30DE),(0xFF96,0xFF9B,0x30E8),(0xFFAA,0xFFAF,0x11B0),
  (0xFFB5,0xFFBE,0x1109),(0xFFC2,0xFFC7,0x1161),(0xFFCA,0xFFCF,0x1167),(0xFFD2,0xFFD7,0x116D),
  (0x10400,0x10427,0x10428),(0x104B0,0x104D3,0x104D8),(0x10570,0x1057A,0x10597),(0x1057C,0x1058A,0x105A3),
  (0x1058C,0x10592,0x105B3),(0x10C80,0x10CB2,0x10CC0),(0x10D50,0x10D65,0x10D70),(0x118A0,0x118BF,0x118C0),
  (0x16E40,0x16E5F,0x16E60),(0x16EA0,0x16EB8,0x16EBB),(0x1CCD6,0x1CCEF,0x61),(0x1CCF0,0x1CCF9,0x30),
  (0x1D400,0x1D419,0x61),(0x1D41A,0x1D433,0x61),(0x1D434,0x1D44D,0x61),(0x1D44E,0x1D454,0x61),
  (0x1D456,0x1D467,0x69),(0x1D468,0x1D481,0x61),(0x1D482,0x1D49B,0x61),(0x1D4AE,0x1D4B5,0x73),
  (0x1D4BD,0x1D4C3,0x68),(0x1D4C5,0x1D4CF,0x70),(0x1D4D0,0x1D4E9,0x61),(0x1D4EA,0x1D503,0x61),
  (0x1D50D,0x1D514,0x6A),(0x1D516,0x1D51C,0x73),(0x1D51E,0x1D537,0x61),(0x1D540,0x1D544,0x69),
  (0x1D54A,0x1D550,0x73),(0x1D552,0x1D56B,0x61),(0x1D56C,0x1D585,0x61),(0x1D586,0x1D59F,0x61),
  (0x1D5A0,0x1D5B9,0x61),(0x1D5BA,0x1D5D3,0x61),(0x1D5D4,0x1D5ED,0x61),(0x1D5EE,0x1D607,0x61),
  (0x1D608,0x1D621,0x61),(0x1D622,0x1D63B,0x61),(0x1D63C,0x1D655,0x61),(0x1D656,0x1D66F,0x61),
  (0x1D670,0x1D689,0x61),(0x1D68A,0x1D6A3,0x61),(0x1D6A8,0x1D6B8,0x3B1),(0x1D6BA,0x1D6C0,0x3C3),
  (0x1D6C2,0x1D6D2,0x3B1),(0x1D6D4,0x1D6DA,0x3C3),(0x1D6E2,0x1D6F2,0x3B1),(0x1D6F4,0x1D6FA,0x3C3),
  (0x1D6FC,0x1D70C,0x3B1),(0x1D70E,0x1D714,0x3C3),(0x1D71C,0x1D72C,0x3B1),(0x1D72E,0x1D734,0x3C3),
  (0x1D736,0x1D746,0x3B1),(0x1D748,0x1D74E,0x3C3),(0x1D756,0x1D766,0x3B1),(0x1D768,0x1D76E,0x3C3),
  (0x1D770,0x1D780,0x3B1),(0x1D782,0x1D788,0x3C3),(0x1D790,0x1D7A0,0x3B1),(0x1D7A2,0x1D7A8,0x3C3),
  (0x1D7AA,0x1D7BA,0x3B1),(0x1D7BC,0x1D7C2,0x3C3),(0x1D7CE,0x1D7D7,0x30),(0x1D7D8,0x1D7E1,0x30),
  (0x1D7E2,0x1D7EB,0x30),(0x1D7EC,0x1D7F5,0x30),(0x1D7F6,0x1D7FF,0x30),(0x1E030,0x1E038,0x430),
  (0x1E03C,0x1E046,0x43E),(0x1E051,0x1E059,0x430),(0x1E05F,0x1E064,0x443),(0x1E900,0x1E921,0x1E922),
  (0x1F130,0x1F149,0x61),(0x1FBF0,0x1FBF9,0x30)]

/-- From a code point on, each character is written as the one at its place in a text. -/
def rows : List (Nat × String) := [
  (0xA0," "),(0xAA,"a"),(0xB2,"23"),(0xB5,"μ"),(0xB9,"1o"),(0x178,"ÿ"),(0x17F,"s"),(0x181,"ɓ"),(0x186,"ɔƈ"),
  (0x189,"ɖɗƌ"),(0x18E,"ǝəɛƒ"),(0x193,"ɠɣ"),(0x196,"ɩɨƙ"),(0x19C,"ɯɲ"),(0x19F,"ɵ"),(0x1A6,"ʀƨ"),(0x1A9,"ʃ"),
  (0x1AC,"ƭ"),(0x1AE,"ʈư"),(0x1B1,"ʊʋ"),(0x1B7,"ʒƹ"),(0x1BC,"ƽ"),(0x1F4,"ǵ"),(0x1F6,"ƕƿ"),(0x220,"ƞ"),(0x23A,"ⱥȼ"),
  (0x23D,"ƚⱦ"),(0x241,"ɂ"),(0x243,"ƀʉʌ"),(0x2B0,"hɦjrɹɻʁwy"),(0x2E0,"ɣlsxʕ"),(0x340,"\u0300\u0301"),
  (0x343,"\u0313"),(0x345,"ι"),(0x374,"\u02b9"),(0x376,"ͷ"),(0x37E,";ϳ"),(0x386,"ά·έήί"),(0x38C,"ό"),(0x38E,"ύώ"),
  (0x3CF,"ϗβθυύϋφπ"),(0x3F0,"κρσ"),(0x3F4,"θε"),(0x3F7,"ϸ"),(0x3F9,"σϻ"),(0x3FD,"ͻͼͽ"),(0x4C0,"ӏ"),(0xF0C,"་"),
  (0x10C7,"ⴧ"),(0x10CD,"ⴭ"),(0x10FC,"ნ"),(0x1C80,"вдосттъѣꙋ\u1c8a"),(0x1CBD,"ჽჾჿ"),(0x1D2C,"aæb"),(0x1D30,"deǝ"),
  (0x1D3C,"oȣprtuwaɐɑᴂbdeəɛɜg"),(0x1D4F,"kmŋoɔᴖᴗptuᴝɯvᴥβγδφχiruvβγρφχ"),(0x1D78,"н"),
  (0x1D9B,"ɒcɕðɜfɟɡɥɨɩɪᵻʝɭᶅʟɱɰɲɳɴɵɸʂʃƫʉʊᴜʋʌzʐʑʒθ"),(0x1E9B,"ṡ"),(0x1E9E,"ß"),(0x1F59,"ὑ"),(0x1F5B,"ὓ"),(0x1F5D,"ὕ"),
  (0x1F5F,"ὗ"),(0x1F71,"ά"),(0x1F73,"έ"),(0x1F75,"ή"),(0x1F77,"ί"),(0x1F79,"ό"),(0x1F7B,"ύ"),(0x1F7D,"ώ"),
  (0x1FB8,"ᾰᾱὰά"),(0x1FBE,"ι"),(0x1FC8,"ὲέὴή"),(0x1FD3,"ΐ"),(0x1FD8,"ῐῑὶί"),(0x1FE3,"ΰ"),(0x1FE8,"ῠῡὺύῥ"),
  (0x1FEF,"`"),(0x1FF8,"ὸόὼώ"),(0x2000,"           "),(0x2011,"‐"),(0x202F," "),(0x205F," "),(0x2070,"0i"),
  (0x207A,"+−=()n"),(0x208A,"+−=()"),(0x2090,"aeoxəhklmnpst"),(0x2102,"c"),(0x2107,"ɛ"),(0x210A,"ghhhhħiill"),
  (0x2115,"n"),(0x2119,"pqrrr"),(0x2124,"z"),(0x2126,"ω"),(0x2128,"z"),(0x212A,"kåbc"),(0x212F,"eefⅎmoאבגדi"),
  (0x213C,"πγγπ∑"),(0x2145,"ddeij"),(0x2160,"i"),(0x2164,"v"),(0x2169,"x"),(0x216C,"lcdmi"),(0x2174,"v"),
  (0x2179,"x"),(0x217C,"lcdm"),(0x2183,"ↄ"),(0x2329,"〈〉"),(0x24EA,"0"),(0x2C60,"ⱡ"),(0x2C62,"ɫᵽɽ"),
  (0x2C6D,"ɑɱɐɒ"),(0x2C72,"ⱳ"),(0x2C75,"ⱶ"),(0x2C7C,"jvȿɀ"),(0x2CF2,"ⳳ"),(0x2D6F,"ⵡ"),(0x2E9F,"母"),(0x2EF3,"龟"),
  (0x2F00,"一丨丶丿乙亅二亠人儿入八冂冖冫几凵刀力勹匕匚匸十卜卩厂厶又口囗土士夂夊夕大女子宀"),
  (0x2F28,"寸小尢尸屮山巛工己巾干幺广廴廾弋弓彐彡彳心戈戶手支攴文斗斤方无日曰月木欠止歹殳毋"),
  (0x2F50,"比毛氏气水火爪父爻爿片牙牛犬玄玉瓜瓦甘生用田疋疒癶白皮皿目矛矢石示禸禾穴立竹米糸"),
  (0x2F78,"缶网羊羽老而耒耳聿肉臣自至臼舌舛舟艮色艸虍虫血行衣襾見角言谷豆豕豸貝赤走足身車辛"),
  (0x2FA0,"辰辵邑酉釆里金長門阜隶隹雨靑非面革韋韭音頁風飛食首香馬骨高髟鬥鬯鬲鬼魚鳥鹵鹿麥麻"),
  (0x2FC8,"黃黍黑黹黽鼎鼓鼠鼻齊齒龍龜龠"),(0x3000," "),(0x3002,"."),(0x3036,"〒"),(0x3038,"十卄卅"),
  (0x3131,"ᄀᄁᆪᄂᆬᆭᄃᄄᄅ"),(0x3140,"ᄚᄆᄇᄈᄡ"),(0x3165,"ᄔᄕᇇᇈᇌᇎᇓᇗᇙᄜᇝᇟᄝᄞᄠᄢᄣᄧᄩ"),
  (0x317D,"ᄲᄶᅀᅇᅌᇱᇲᅗᅘᅙᆄᆅᆈᆑᆒᆔᆞᆡ"),(0x3192,"一二三四上中下甲乙丙丁天地人"),(0x3244,"問幼文箏"),
  (0x3260,"ᄀᄂᄃᄅᄆᄇᄉᄋᄌ"),(0x326E,"가나다라마바사아자차카타파하"),(0x327E,"우"),
  (0x3280,"一二三四五六七八九十月火水木金土日株有社名特財祝労秘男女適優印注項休写正上中下左"),
  (0x32A8,"右医宗学監企資協夜"),(0x32D0,"アイウエオカキクケコサシスセソタチツテト"),(0x32EA,"ヒフヘホ"),
  (0x32F3,"ヤユ"),(0x32FB,"ワヰヱヲ"),(0xA69C,"ъь"),(0xA770,"ꝯ"),(0xA77D,"ᵹ"),(0xA78B,"ꞌ"),(0xA78D,"ɥ"),
  (0xA7AA,"ɦɜɡɬɪ"),(0xA7B0,"ʞʇʝꭓ"),(0xA7C4,"ꞔʂᶎ"),(0xA7CB,"ɤ"),(0xA7DC,"ƛ"),(0xA7F1,"scfqꟶ"),(0xA7F8,"ħœ"),
  (0xAB5C,"ꜧꬷɫꭒ"),(0xAB69,"ʍ"),
  (0xF900,"豈更車賈滑串句龜龜契金喇奈懶癩羅蘿螺裸邏樂洛烙珞落酪駱亂卵欄爛蘭鸞嵐濫藍襤拉臘蠟"),
  (0xF928,"廊朗浪狼郎來冷勞擄櫓爐盧老蘆虜路露魯鷺碌祿綠菉錄鹿論壟弄籠聾牢磊賂雷壘屢樓淚漏累"),
  (0xF950,"縷陋勒肋凜凌稜綾菱陵讀拏樂諾丹寧怒率異北磻便復不泌數索參塞省葉說殺辰沈拾若掠略亮"),
  (0xF978,"兩凉梁糧良諒量勵呂女廬旅濾礪閭驪麗黎力曆歷轢年憐戀撚漣煉璉秊練聯輦蓮連鍊列劣咽烈"),
  (0xF9A0,"裂說廉念捻殮簾獵令囹寧嶺怜玲瑩羚聆鈴零靈領例禮醴隸惡了僚寮尿料樂燎療蓼遼龍暈阮劉"),
  (0xF9C8,"杻柳流溜琉留硫紐類六戮陸倫崙淪輪律慄栗率隆利吏履易李梨泥理痢罹裏裡里離匿溺吝燐璘"),
  (0xF9F0,"藺隣鱗麟林淋臨立笠粒狀炙識什茶刺切度拓糖宅洞暴輻行降見廓兀嗀"),(0xFA10,"塚"),(0xFA12,"晴"),
  (0xFA15,"凞猪益礼神祥福靖精羽"),(0xFA20,"蘒"),(0xFA22,"諸"),(0xFA25,"逸都"),
  (0xFA2A,"飯飼館鶴郞隷侮僧免勉勤卑喝嘆器塀墨層屮悔慨憎懲敏既暑梅海渚漢煮爫琢碑社祉祈祐祖祝"),
  (0xFA52,"禍禎穀突節練縉繁署者臭艹艹著褐視謁謹賓贈辶逸難響頻恵𤋮舘"),
  (0xFA70,"並况全侀充冀勇勺喝啕喙嗢塚墳奄奔婢嬨廒廙彩徭惘慎愈憎慠懲戴揄搜摒敖晴朗望杖歹殺流"),
  (0xFA98,"滛滋漢瀞煮瞧爵犯猪瑱甆画瘝瘟益盛直睊着磌窱節类絛練缾者荒華蝹襁覆視調諸請謁諾諭謹"),
  (0xFAC0,"變贈輸遲醙鉶陼難靖韛響頋頻鬒龜𢡊𢡄𣏕㮝䀘䀹𥉉𥳐𧻓齃龎"),(0xFB20,"עאדהכלםרת+"),
  (0xFB50,"ٱٱٻٻٻٻپپپپڀڀڀڀٺٺٺٺٿٿٿٿٹٹٹٹڤڤڤڤڦڦڦڦڄڄڄڄڃڃ"),(0xFB78,"ڃڃچچچچڇڇڇڇڍڍڌڌڎڎڈڈژژڑڑککککگگگگڳڳڳڳڱڱڱڱںں"),
  (0xFBA0,"ڻڻڻڻۀۀہہہہھھھھےےۓۓ"),(0xFBD3,"ڭڭڭڭۇۇۆۆۈۈ"),(0xFBDE,"ۋۋۅۅۉۉېېېېىى"),(0xFBFC,"یییی"),(0xFE10,",、"),
  (0xFE13,":;!?〖〗"),(0xFE31,"—–__()\x7b\x7d〔〕【】《》〈〉「」『』"),(0xFE47,"[]"),(0xFE4D,"___,、"),
  (0xFE54,";:?!—()\x7b\x7d〔〕#&*+-<>="),(0xFE68,"\\$%@"),(0xFE80,"ءآآأأؤؤإإئئئئااببببةةتتتتثثثثججججححححخخخ"),
  (0xFEA8,"خددذذررززسسسسششششصصصصضضضضططططظظظظععععغغغ"),(0xFED0,"غففففققققككككللللممممننننههههووىىيييي"),
  (0xFF5F,"⦅⦆.「」、・ヲァィゥェォャュョッ\u30fcアイウエオカキクケコサシスセソタチツテト"),(0xFF8B,"ヒフヘホ"),
  (0xFF94,"ヤユ"),(0xFF9C,"ワン\u3099\u309a"),(0xFFA1,"ᄀᄁᆪᄂᆬᆭᄃᄄᄅ"),(0xFFB0,"ᄚᄆᄇᄈᄡ"),(0xFFDA,"ᅳᅴᅵ"),
  (0xFFE0,"¢£¬"),(0xFFE4,"¦¥₩"),(0xFFE8,"│←↑→↓■○"),(0x10594,"𐖻𐖼"),(0x10781,"\u02d0\u02d1æʙɓ"),
  (0x10787,"ʣꭦʥʤɖɗᶑɘɞʩɤɢɠʛħʜɧʄʪʫɬ𝼄ꞎɮ𝼅ʎ𝼆øɶɷqɺ𝼈ɽɾʀʨʦꭧʧ"),(0x107AF,"ʈⱱ"),(0x107B2,"ʏʡʢʘǀǁǂ𝼊𝼞"),(0x1D49C,"a"),
  (0x1D49E,"cd"),(0x1D4A2,"g"),(0x1D4A5,"jk"),(0x1D4A9,"nopq"),(0x1D4B6,"abcd"),(0x1D4BB,"f"),(0x1D504,"ab"),
  (0x1D507,"defg"),(0x1D538,"ab"),(0x1D53B,"defg"),(0x1D546,"o"),(0x1D6A4,"ıȷ"),(0x1D6B9,"θ"),(0x1D6C1,"∇"),
  (0x1D6D3,"σ"),(0x1D6DB,"∂εθκφρπ"),(0x1D6F3,"θ"),(0x1D6FB,"∇"),(0x1D70D,"σ"),(0x1D715,"∂εθκφρπ"),(0x1D72D,"θ"),
  (0x1D735,"∇"),(0x1D747,"σ"),(0x1D74F,"∂εθκφρπ"),(0x1D767,"θ"),(0x1D76F,"∇"),(0x1D781,"σ"),(0x1D789,"∂εθκφρπ"),
  (0x1D7A1,"θ"),(0x1D7A9,"∇"),(0x1D7BB,"σ"),(0x1D7C3,"∂εθκφρπϝϝ"),(0x1E039,"клм"),(0x1E047,"ыэюꚉәіјөүӏ"),
  (0x1E05A,"клопс"),(0x1E065,"ъыґіѕџҫꙑұ"),(0x1EE00,"ابجد"),(0x1EE05,"وزحطيكلمنسعفصقرشتثخذضظغٮںڡٯ"),(0x1EE21,"بج"),
  (0x1EE24,"ه"),(0x1EE27,"ح"),(0x1EE29,"يكلمنسعفصق"),(0x1EE34,"شتثخ"),(0x1EE39,"ض"),(0x1EE3B,"غ"),(0x1EE42,"ج"),
  (0x1EE47,"ح"),(0x1EE49,"ي"),(0x1EE4B,"ل"),(0x1EE4D,"نسع"),(0x1EE51,"صق"),(0x1EE54,"ش"),(0x1EE57,"خ"),
  (0x1EE59,"ض"),(0x1EE5B,"غ"),(0x1EE5D,"ں"),(0x1EE5F,"ٯ"),(0x1EE61,"بج"),(0x1EE64,"ه"),(0x1EE67,"حطيك"),
  (0x1EE6C,"منسعفصق"),(0x1EE74,"شتثخ"),(0x1EE79,"ضظغٮ"),(0x1EE7E,"ڡ"),(0x1EE80,"ابجدهوزحطي"),
  (0x1EE8B,"لمنسعفصقرشتثخذضظغ"),(0x1EEA1,"بجد"),(0x1EEA5,"وزحطي"),(0x1EEAB,"لمنسعفصقرشتثخذضظغ"),(0x1F12B,"cr"),
  (0x1F202,"サ"),(0x1F210,"手字双デ二多解天交映無料前後再新初終生販声吹演投捕一三遊左中右指走打禁空合満有月"),
  (0x1F238,"申割営配"),(0x1F250,"得可"),
  (0x2F800,"丽丸乁𠄢你侮侻倂偺備僧像㒞𠘺免兔兤具𠔜㒹內再𠕋冗冤仌冬况𩇟凵刃㓟刻剆割剷㔕勇勉勤"),
  (0x2F828,"勺包匆北卉卑博即卽卿卿卿𠨬灰及叟𠭣叫叱吆咞吸呈周咢哶唐啓啣善善喙喫喳嗂圖嘆圗噑噴"),
  (0x2F850,"切壮城埴堍型堲報墬𡓤売壷夆多夢奢𡚨𡛪姬娛娧姘婦㛮㛼嬈嬾嬾𡧈寃寘寧寳𡬘寿将当尢㞁屠"),
  (0x2F878,"屮峀岍𡷤嵃𡷦嵮嵫嵼巡巢㠯巽帨帽幩㡢𢆃㡼庰庳庶廊𪎒廾𢌱𢌱舁弢弢㣇𣊸𦇚形彫㣣徚忍志忹"),
  (0x2F8A0,"悁㤺㤜悔𢛔惇慈慌慎慌慺憎憲憤憯懞懲懶成戛扝抱拔捐𢬌挽拼捨掃揤𢯱搢揅掩㨮摩摾撝摷㩬"),
  (0x2F8C8,"敏敬𣀊旣書晉㬙暑㬈㫤冒冕最暜肭䏙朗望朡杞杓𣏃㭉柺枅桒梅𣑭梎栟椔㮝楂榣槪檨𣚣櫛㰘次"),
  (0x2F8F0,"𣢧歔㱎歲殟殺殻𣪍𡴋𣫺汎𣲼沿泍汧洖派海流浩浸涅𣴞洴港湮㴳滋滇𣻑淹潮𣽞𣾎濆瀹瀞瀛㶖灊"),
  (0x2F918,"災灷炭𠔥煅𤉣熜𤎫爨爵牐𤘈犀犕𤜵𤠔獺王㺬玥㺸㺸瑇瑜瑱璅瓊㼛甤𤰶甾𤲒異𢆟瘐𤾡𤾸𥁄㿼䀈"),
  (0x2F940,"直𥃳𥃲𥄙𥄳眞真真睊䀹瞋䁆䂖𥐝硎碌磌䃣𥘦祖𥚚𥛅福秫䄯穀穊穏𥥼𥪧𥪧竮䈂𥮫篆築䈧𥲀糒䊠"),
  (0x2F968,"糨糣紀𥾆絣䌁緇縂繅䌴𦈨𦉇䍙𦋙罺𦌾羕翺者𦓚𦔣聠𦖨聰𣍟䏕育脃䐋脾媵𦞧𦞵𣎓𣎜舁舄辞䑫芑"),
  (0x2F990,"芋芝劳花芳芽苦𦬼若茝荣莭茣莽菧著荓菊菌菜𦰶𦵫𦳕䔫蓱蓳蔖𧏊蕤𦼬䕝䕡𦾱𧃒䕫虐虜虧虩蚩"),
  (0x2F9B8,"蚈蜎蛢蝹蜨蝫螆䗗蟡蠁䗹衠衣𧙧裗裞䘵裺㒻𧢮𧥦䚾䛇誠諭變豕𧲨貫賁贛起𧼯𠠄跋趼跰𠣞軔輸"),
  (0x2F9E0,"𨗒𨗭邔郱鄑𨜮鄛鈸鋗鋘鉼鏹鐕𨯺開䦕閷𨵷䧦雃嶲霣𩅅𩈚䩮䩶韠𩐊䪲𩒖頋頋頩𩖶飢䬳餩馧駂駾"),
  (0x2FA08,"䯎𩬰鬒鱀鳽䳎䳭鵧𪃎䳸𪄅𪈎𪊑麻䵖黹黾鼅鼏鼖鼻𪘀")]

/-- From a code point on, each character is written as the text at its place. -/
def spelledOut : List (Nat × List String) := [
  (0xA8,[" \u0308"]),(0xAF,[" \u0304"]),(0xB4,[" \u0301"]),(0xB8,[" \u0327"]),(0xBC,["1⁄4","1⁄2","3⁄4"]),
  (0x130,["i\u0307"]),(0x132,["ij","ij"]),(0x13F,["l·","l·"]),(0x149,["\u02bcn"]),
  (0x1C4,["dž","dž","dž","lj","lj","lj","nj","nj","nj"]),(0x1F1,["dz","dz","dz"]),
  (0x2D8,[" \u0306"," \u0307"," \u030a"," \u0328"," \u0303"," \u030b"]),(0x344,["\u0308\u0301"]),(0x37A,[" ι"]),
  (0x384,[" \u0301"," \u0308\u0301"]),(0x587,["եւ"]),(0x675,["اٴ","وٴ","ۇٴ","يٴ"]),
  (0x958,["क\u093c","ख\u093c","ग\u093c","ज\u093c","ड\u093c","ढ\u093c","फ\u093c","य\u093c"]),
  (0x9DC,["ড\u09bc","ঢ\u09bc"]),(0x9DF,["য\u09bc"]),(0xA33,["ਲ\u0a3c"]),(0xA36,["ਸ\u0a3c"]),
  (0xA59,["ਖ\u0a3c","ਗ\u0a3c","ਜ\u0a3c"]),(0xA5E,["ਫ\u0a3c"]),(0xB5C,["ଡ\u0b3c","ଢ\u0b3c"]),(0xE33,["\u0e4dา"]),
  (0xEB3,["\u0ecdາ"]),(0xEDC,["ຫນ","ຫມ"]),(0xF43,["ག\u0fb7"]),(0xF4D,["ཌ\u0fb7"]),(0xF52,["ད\u0fb7"]),
  (0xF57,["བ\u0fb7"]),(0xF5C,["ཛ\u0fb7"]),(0xF69,["ཀ\u0fb5"]),(0xF73,["\u0f71\u0f72"]),
  (0xF75,["\u0f71\u0f74","\u0fb2\u0f80","\u0fb2\u0f71\u0f80","\u0fb3\u0f80","\u0fb3\u0f71\u0f80"]),
  (0xF81,["\u0f71\u0f80"]),(0xF93,["\u0f92\u0fb7"]),(0xF9D,["\u0f9c\u0fb7"]),(0xFA2,["\u0fa1\u0fb7"]),
  (0xFA7,["\u0fa6\u0fb7"]),(0xFAC,["\u0fab\u0fb7"]),(0xFB9,["\u0f90\u0fb5"]),(0x1E9A,["a\u02be"]),
  (0x1F80,["ἀι","ἁι","ἂι","ἃι","ἄι","ἅι","ἆι","ἇι","ἀι","ἁι","ἂι","ἃι"]),
  (0x1F8C,["ἄι","ἅι","ἆι","ἇι","ἠι","ἡι","ἢι","ἣι","ἤι","ἥι","ἦι","ἧι"]),
  (0x1F98,["ἠι","ἡι","ἢι","ἣι","ἤι","ἥι","ἦι","ἧι","ὠι","ὡι","ὢι","ὣι"]),
  (0x1FA4,["ὤι","ὥι","ὦι","ὧι","ὠι","ὡι","ὢι","ὣι","ὤι","ὥι","ὦι","ὧι"]),(0x1FB2,["ὰι","αι","άι"]),(0x1FB7,["ᾶι"]),
  (0x1FBC,["αι"," \u0313"]),(0x1FBF,[" \u0313"," \u0342"," \u0308\u0342","ὴι","ηι","ήι"]),(0x1FC7,["ῆι"]),
  (0x1FCC,["ηι"," \u0313\u0300"," \u0313\u0301"," \u0313\u0342"]),
  (0x1FDD,[" \u0314\u0300"," \u0314\u0301"," \u0314\u0342"]),(0x1FED,[" \u0308\u0300"," \u0308\u0301"]),
  (0x1FF2,["ὼι","ωι","ώι"]),(0x1FF7,["ῶι"]),(0x1FFC,["ωι"," \u0301"," \u0314"]),(0x2017,[" \u0333"]),
  (0x2033,["′′","′′′"]),(0x2036,["‵‵","‵‵‵"]),(0x203C,["!!"]),(0x203E,[" \u0305"]),(0x2047,["??","?!","!?"]),
  (0x2057,["′′′′"]),(0x20A8,["rs"]),(0x2100,["a/c","a/s"]),(0x2103,["°c"]),(0x2105,["c/o","c/u"]),(0x2109,["°f"]),
  (0x2116,["no"]),(0x2120,["sm","tel","tm"]),(0x213B,["fax"]),
  (0x2150,["1⁄7","1⁄9","1⁄10","1⁄3","2⁄3","1⁄5","2⁄5","3⁄5","4⁄5","1⁄6","5⁄6","1⁄8"]),
  (0x215C,["3⁄8","5⁄8","7⁄8","1⁄"]),(0x2161,["ii","iii","iv"]),(0x2165,["vi","vii","viii","ix"]),
  (0x216A,["xi","xii"]),(0x2171,["ii","iii","iv"]),(0x2175,["vi","vii","viii","ix"]),(0x217A,["xi","xii"]),
  (0x2189,["0⁄3"]),(0x222C,["∫∫","∫∫∫"]),(0x222F,["∮∮","∮∮∮"]),
  (0x2469,["10","11","12","13","14","15","16","17","18","19","20","(1)"]),
  (0x2475,["(2)","(3)","(4)","(5)","(6)","(7)","(8)","(9)","(10)","(11)","(12)","(13)"]),
  (0x2481,["(14)","(15)","(16)","(17)","(18)","(19)","(20)"]),
  (0x249C,["(a)","(b)","(c)","(d)","(e)","(f)","(g)","(h)","(i)","(j)","(k)","(l)"]),
  (0x24A8,["(m)","(n)","(o)","(p)","(q)","(r)","(s)","(t)","(u)","(v)","(w)","(x)"]),(0x24B4,["(y)","(z)"]),
  (0x2A0C,["∫∫∫∫"]),(0x2A74,["::=","==","==="]),(0x2ADC,["⫝\u0338"]),(0x309B,[" \u3099"," \u309a"]),
  (0x309F,["より"]),(0x30FF,["コト"]),
  (0x3200,["(ᄀ)","(ᄂ)","(ᄃ)","(ᄅ)","(ᄆ)","(ᄇ)","(ᄉ)","(ᄋ)","(ᄌ)","(ᄎ)","(ᄏ)","(ᄐ)"]),
  (0x320C,["(ᄑ)","(ᄒ)","(가)","(나)","(다)","(라)","(마)","(바)","(사)","(아)","(자)","(차)"]),
  (0x3218,["(카)","(타)","(파)","(하)","(주)","(오전)","(오후)"]),
  (0x3220,["(一)","(二)","(三)","(四)","(五)","(六)","(七)","(八)","(九)","(十)","(月)","(火)"]),
  (0x322C,["(水)","(木)","(金)","(土)","(日)","(株)","(有)","(社)","(名)","(特)","(財)","(祝)"]),
  (0x3238,["(労)","(代)","(呼)","(学)","(監)","(企)","(資)","(協)","(祭)","(休)","(自)","(至)"]),
  (0x3250,["pte","21","22","23","24","25","26","27","28","29","30","31"]),(0x325C,["32","33","34","35"]),
  (0x327C,["참고","주의"]),(0x32B1,["36","37","38","39","40","41","42","43","44","45","46","47"]),
  (0x32BD,["48","49","50","1月","2月","3月","4月","5月","6月","7月","8月","9月"]),
  (0x32C9,["10月","11月","12月","hg","erg","ev","ltd"]),
  (0x32FF,["令和","アパ\u30fcト","アルファ","アンペア","ア\u30fcル","イニング","インチ","ウォン","エスク\u30fcド","エ\u30fcカ\u30fc","オンス","オ\u30fcム"]),
  (0x330B,["カイリ","カラット","カロリ\u30fc","ガロン","ガンマ","ギガ","ギニ\u30fc","キュリ\u30fc","ギルダ\u30fc","キロ","キログラム","キロメ\u30fcトル"]),
  (0x3317,["キロワット","グラム","グラムトン","クルゼイロ","クロ\u30fcネ","ケ\u30fcス","コルナ","コ\u30fcポ","サイクル","サンチ\u30fcム","シリング","センチ"]),
  (0x3323,["セント","ダ\u30fcス","デシ","ドル","トン","ナノ","ノット","ハイツ","パ\u30fcセント","パ\u30fcツ","バ\u30fcレル","ピアストル"]),
  (0x332F,["ピクル","ピコ","ビル","ファラッド","フィ\u30fcト","ブッシェル","フラン","ヘクタ\u30fcル","ペソ","ペニヒ","ヘルツ","ペンス"]),
  (0x333B,["ペ\u30fcジ","ベ\u30fcタ","ポイント","ボルト","ホン","ポンド","ホ\u30fcル","ホ\u30fcン","マイクロ","マイル","マッハ","マルク"]),
  (0x3347,["マンション","ミクロン","ミリ","ミリバ\u30fcル","メガ","メガトン","メ\u30fcトル","ヤ\u30fcド","ヤ\u30fcル","ユアン","リットル","リラ"]),
  (0x3353,["ルピ\u30fc","ル\u30fcブル","レム","レントゲン","ワット","0点","1点","2点","3点","4点","5点","6点"]),
  (0x335F,["7点","8点","9点","10点","11点","12点","13点","14点","15点","16点","17点","18点"]),
  (0x336B,["19点","20点","21点","22点","23点","24点","hpa","da","au","bar","ov","pc"]),
  (0x3377,["dm","dm2","dm3","iu","平成","昭和","大正","明治","株式会社","pa","na","μa"]),
  (0x3383,["ma","ka","kb","mb","gb","cal","kcal","pf","nf","μf","μg","mg"]),
  (0x338F,["kg","hz","khz","mhz","ghz","thz","μl","ml","dl","kl","fm","nm"]),
  (0x339B,["μm","mm","cm","km","mm2","cm2","m2","km2","mm3","cm3","m3","km3"]),
  (0x33A7,["m∕s","m∕s2","pa","kpa","mpa","gpa","rad","rad∕s","rad∕s2","ps","ns","μs"]),
  (0x33B3,["ms","pv","nv","μv","mv","kv","mv","pw","nw","μw","mw","kw"]),(0x33BF,["mw","kω","mω"]),
  (0x33C3,["bq","cc","cd","c∕kg"]),(0x33C8,["db","gy","ha","hp","in","kk","km","kt","lm","ln","log","lx"]),
  (0x33D4,["mb","mil","mol","ph"]),(0x33D9,["ppm","pr","sr","sv","wb","v∕m","a∕m","1日","2日","3日","4日","5日"]),
  (0x33E5,["6日","7日","8日","9日","10日","11日","12日","13日","14日","15日","16日","17日"]),
  (0x33F1,["18日","19日","20日","21日","22日","23日","24日","25日","26日","27日","28日","29日"]),
  (0x33FD,["30日","31日","gal"]),(0xFB00,["ff","fi","fl","ffi","ffl","st","st"]),
  (0xFB13,["մն","մե","մի","վն","մխ"]),(0xFB1D,["י\u05b4"]),(0xFB1F,["ײ\u05b7"]),
  (0xFB2A,["ש\u05c1","ש\u05c2","ש\u05bc\u05c1","ש\u05bc\u05c2","א\u05b7","א\u05b8","א\u05bc","ב\u05bc","ג\u05bc",
    "ד\u05bc","ה\u05bc","ו\u05bc"]),
  (0xFB36,["ז\u05bc"]),(0xFB38,["ט\u05bc","י\u05bc","ך\u05bc","כ\u05bc","ל\u05bc"]),(0xFB3E,["מ\u05bc"]),
  (0xFB40,["נ\u05bc","ס\u05bc"]),(0xFB43,["ף\u05bc","פ\u05bc"]),
  (0xFB46,["צ\u05bc","ק\u05bc","ר\u05bc","ש\u05bc","ת\u05bc","ו\u05b9","ב\u05bf","כ\u05bf","פ\u05bf","אל"]),
  (0xFBDD,["ۇٴ"]),(0xFBEA,["ئا","ئا","ئە","ئە","ئو","ئو","ئۇ","ئۇ","ئۆ","ئۆ","ئۈ","ئۈ"]),
  (0xFBF6,["ئې","ئې","ئې","ئى","ئى","ئى"]),(0xFC00,["ئج","ئح","ئم","ئى","ئي","بج","بح","بخ","بم","بى","بي","تج"]),
  (0xFC0C,["تح","تخ","تم","تى","تي","ثج","ثم","ثى","ثي","جح","جم","حج"]),
  (0xFC18,["حم","خج","خح","خم","سج","سح","سخ","سم","صح","صم","ضج","ضح"]),
  (0xFC24,["ضخ","ضم","طح","طم","ظم","عج","عم","غج","غم","فج","فح","فخ"]),
  (0xFC30,["فم","فى","في","قح","قم","قى","قي","كا","كج","كح","كخ","كل"]),
  (0xFC3C,["كم","كى","كي","لج","لح","لخ","لم","لى","لي","مج","مح","مخ"]),
  (0xFC48,["مم","مى","مي","نج","نح","نخ","نم","نى","ني","هج","هم","هى"]),
  (0xFC54,["هي","يج","يح","يخ","يم","يى","يي","ذ\u0670","ر\u0670","ى\u0670"," \u064c\u0651"," \u064d\u0651"]),
  (0xFC60,[" \u064e\u0651"," \u064f\u0651"," \u0650\u0651"," \u0651\u0670","ئر","ئز","ئم","ئن","ئى","ئي","بر","بز"]),
  (0xFC6C,["بم","بن","بى","بي","تر","تز","تم","تن","تى","تي","ثر","ثز"]),
  (0xFC78,["ثم","ثن","ثى","ثي","فى","في","قى","قي","كا","كل","كم","كى"]),
  (0xFC84,["كي","لم","لى","لي","ما","مم","نر","نز","نم","نن","نى","ني"]),
  (0xFC90,["ى\u0670","ير","يز","يم","ين","يى","يي","ئج","ئح","ئخ","ئم","ئه"]),
  (0xFC9C,["بج","بح","بخ","بم","به","تج","تح","تخ","تم","ته","ثم","جح"]),
  (0xFCA8,["جم","حج","حم","خج","خم","سج","سح","سخ","سم","صح","صخ","صم"]),
  (0xFCB4,["ضج","ضح","ضخ","ضم","طح","ظم","عج","عم","غج","غم","فج","فح"]),
  (0xFCC0,["فخ","فم","قح","قم","كج","كح","كخ","كل","كم","لج","لح","لخ"]),
  (0xFCCC,["لم","له","مج","مح","مخ","مم","نج","نح","نخ","نم","نه","هج"]),
  (0xFCD8,["هم","ه\u0670","يج","يح","يخ","يم","يه","ئم","ئه","بم","به","تم"]),
  (0xFCE4,["ته","ثم","ثه","سم","سه","شم","شه","كل","كم","لم","نم","نه"]),
  (0xFCF0,["يم","يه","\u0640\u064e\u0651","\u0640\u064f\u0651","\u0640\u0650\u0651","طى","طي","عى","عي","غى","غي","سى"]),
  (0xFCFC,["سي","شى","شي","حى","حي","جى","جي","خى","خي","صى","صي","ضى"]),
  (0xFD08,["ضي","شج","شح","شخ","شم","شر","سر","صر","ضر","طى","طي","عى"]),
  (0xFD14,["عي","غى","غي","سى","سي","شى","شي","حى","حي","جى","جي","خى"]),
  (0xFD20,["خي","صى","صي","ضى","ضي","شج","شح","شخ","شم","شر","سر","صر"]),
  (0xFD2C,["ضر","شج","شح","شخ","شم","سه","شه","طم","سج","سح","سخ","شج"]),
  (0xFD38,["شح","شخ","طم","ظم","ا\u064b","ا\u064b"]),
  (0xFD50,["تجم","تحج","تحج","تحم","تخم","تمج","تمح","تمخ","جمح","جمح","حمي","حمى"]),
  (0xFD5C,["سحج","سجح","سجى","سمح","سمح","سمج","سمم","سمم","صحح","صحح","صمم","شحم"]),
  (0xFD68,["شحم","شجي","شمخ","شمخ","شمم","شمم","ضحى","ضخم","ضخم","طمح","طمح","طمم"]),
  (0xFD74,["طمي","عجم","عمم","عمم","عمى","غمم","غمي","غمى","فخم","فخم","قمح","قمم"]),
  (0xFD80,["لحم","لحي","لحى","لجج","لجج","لخم","لخم","لمح","لمح","محج","محم","محي"]),
  (0xFD8C,["مجح","مجم","مخج","مخم"]),
  (0xFD92,["مجخ","همج","همم","نحم","نحى","نجم","نجم","نجى","نمي","نمى","يمم","يمم"]),
  (0xFD9E,["بخي","تجي","تجى","تخي","تخى","تمي","تمى","جمي","جحى","جمى","سخى","صحي"]),
  (0xFDAA,["شحي","ضحي","لجي","لمي","يحي","يجي","يمي","ممي","قمي","نحي","قمح","لحم"]),
  (0xFDB6,["عمي","كمي","نجح","مخي","لجم","كمم","لجم","نجح","جحي","حجي","مجي","فمي"]),
  (0xFDC2,["بحي","كمم","عجم","صمم","سخي","نجي"]),
  (0xFDF0,["صلے","قلے","الله","اكبر","محمد","صلعم","رسول","عليه","وسلم","صلى","صلى الله عليه وسلم","جل جلاله"]),
  (0xFDFC,["ریال"]),(0xFE49,[" \u0305"," \u0305"," \u0305"," \u0305"]),
  (0xFE70,[" \u064b","\u0640\u064b"," \u064c"]),(0xFE74,[" \u064d"]),
  (0xFE76,[" \u064e","\u0640\u064e"," \u064f","\u0640\u064f"," \u0650","\u0640\u0650"," \u0651","\u0640\u0651",
    " \u0652","\u0640\u0652"]),
  (0xFEF5,["لآ","لآ","لأ","لأ","لإ","لإ","لا","لا"]),(0xFFE3,[" \u0304"]),
  (0x1D15E,["𝅗𝅥","𝅘𝅥","𝅘𝅥𝅮","𝅘𝅥𝅯","𝅘𝅥𝅰","𝅘𝅥𝅱","𝅘𝅥𝅲"]),(0x1D1BB,["𝆹𝅥","𝆺𝅥","𝆹𝅥𝅮","𝆺𝅥𝅮","𝆹𝅥𝅯","𝆺𝅥𝅯"]),
  (0x1F101,["0,","1,","2,","3,","4,","5,","6,","7,","8,","9,"]),
  (0x1F110,["(a)","(b)","(c)","(d)","(e)","(f)","(g)","(h)","(i)","(j)","(k)","(l)"]),
  (0x1F11C,["(m)","(n)","(o)","(p)","(q)","(r)","(s)","(t)","(u)","(v)","(w)","(x)"]),
  (0x1F128,["(y)","(z)","〔s〕"]),(0x1F12D,["cd","wz"]),(0x1F14A,["hv","mv","sd","ss","ppv","wc"]),
  (0x1F16A,["mc","md","mr"]),(0x1F190,["dj"]),(0x1F200,["ほか","ココ"]),
  (0x1F240,["〔本〕","〔三〕","〔二〕","〔安〕","〔点〕","〔打〕","〔盗〕","〔勝〕","〔敗〕"])]

/-- What stands at the place of a code point in a row that begins at another. -/
def at? {α : Type} (n : Nat) (row : Nat × List α) : Option α := if row.1 ≤ n then row.2[n - row.1]? else none

/-- What a character beyond ASCII is written as, if not as itself. -/
def replacement? (c : Char) : Option (List Char) :=
  let n := c.toNat
  if inRanges ignored c then some []
  else if alternatesIn capitals c then some [Char.ofNat (n + 1)]
  else match shifted.find? fun range => range.1 ≤ n && n ≤ range.2.1 with
    | some (first,_,target) => some [Char.ofNat (target + (n - first))]
    | none =>
      ((rows.findSome? fun row => at? n (row.1,row.2.toList)).map fun c => [c]).or
        ((spelledOut.findSome? (at? n)).map String.toList)

/-- A text with its characters as they are written. -/
def mapped (text : List Char) : List Char :=
  text.flatMap fun c => if isAscii c then [c.toLower] else (replacement? c).getD [c]

end Mapping
end Domain
end Uri
end SchemaBinding
